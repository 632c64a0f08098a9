import Woody.Foundation.Bytes
import Woody.Foundation.Framing
import Woody.Foundation.Resumable
import Woody.Foundation.Transducer
import Woody.Foundation.Machine
import Woody.Foundation.Lines
import Woody.Foundation.Gluing
import Woody.Foundation.Scanner
import Woody.Base.Endian
import Woody.Websocket.Frame
import Woody.Websocket.Wire
import Woody.Websocket.Parser
import Woody.Websocket.ParserRefinement
import Woody.Websocket.Codec
import Woody.Websocket.Legality
import Woody.Websocket.Assembly
import Woody.Websocket.Reassembly
import Woody.Websocket.Transparency
import Woody.Websocket.CodecRefinement
import Woody.Websocket.Masking
import Woody.Websocket.KeyedMessage
import Woody.Net.Buffer
import Woody.Net.TcpConnection
import Woody.Net.Sending
import Woody.Net.Delivery
import Woody.Websocket.Handler
import Woody.Websocket.HandlerLoop
import Woody.Websocket.Progress
import Woody.Websocket.Prefixes
import Woody.Websocket.BufferSafety
import Woody.Websocket.Silence
import Woody.Websocket.Segmentation
import Woody.Websocket.Encoding
import Woody.Websocket.Delivery
import Woody.Websocket.Canonical
import Woody.Websocket.Echo
import Woody.Base.Text
import Woody.Http.Query
import Woody.Http.Codec
import Woody.Http.Message
import Woody.Http.Isolation
import Woody.Http.Segments
import Woody.Base.SslUtil
import Woody.Base.StringUtil
import Woody.Base.Decimal
import Woody.Http.Response
import Woody.Http.Rendering
import Woody.Http.ContentLength
import Woody.Websocket.Upgrade
import Woody.Http.LetterCase
import Woody.Websocket.Handshake
import Woody.Http.Handler
import Woody.Http.ReadLoop
import Woody.Http.Handover
import Woody.Http.Server
import Woody.HttpParser.Chars
import Woody.HttpParser.State
import Woody.HttpParser.Cases
import Woody.HttpParser.Execute
import Woody.HttpParser.ByteMachine
import Woody.HttpParser.Graph
import Woody.HttpParser.Methods
import Woody.HttpParser.Tracking
import Woody.HttpParser.Soundness
import Woody.HttpParser.Refinement
import Woody.HttpParser.Headers
import Woody.HttpParser.Bodies
import Woody.HttpParser.Execution
import Woody.HttpParser.Calls
import Woody.HttpParser.Segmentation
import Woody.HttpParser.Grammar
import Woody.HttpParser.Reported
import Woody.HttpParser.Assertions
import Woody.HttpParser.HeaderLimit
import Woody.HttpParser.Reading
import Woody.HttpParser.RequestLine
import Woody.HttpParser.HeaderNames
import Woody.HttpParser.HeaderValues
import Woody.HttpParser.HeaderLines
import Woody.HttpParser.Contents
import Woody.HttpParser.Requests
import Woody.Http.Pipeline
