import Woody.Base.StringUtil

/-!
# HTTP responses

`HTTPResponse` and the calls that build it.  `End` gives the formatted
response to the connection.
-/

namespace Woody

structure HTTPResponse where
  statusCode : Int
  statusMessage : Bytes
  headersMap : StringMap
  body : Bytes

namespace HTTPResponse

/-- The constructor does not set the status code. -/
def init (statusCode : Int) : HTTPResponse where
  statusCode := statusCode
  statusMessage := []
  headersMap := ∅
  body := []

def setStatus (response : HTTPResponse) (code : Int) (message : Bytes) :
    HTTPResponse :=
  { response with statusCode := code, statusMessage := message }

def addHeader (response : HTTPResponse) (name value : Bytes) : HTTPResponse :=
  { response with headersMap := response.headersMap.insertPair name value }

def addBody (response : HTTPResponse) (body : Bytes) : HTTPResponse :=
  { response with body := body }

/-- `ToString`. -/
def toText (response : HTTPResponse) (boost : Boost) : Bytes :=
  let firstLine :=
    ascii "HTTP/1.1 " ++ boost.intToString response.statusCode ++ ascii " " ++
      response.statusMessage
  let headers :=
    response.headersMap.toList.flatMap fun entry =>
      entry.1 ++ ascii ": " ++ entry.2 ++ ascii "\r\n"
  firstLine ++ ascii "\r\n" ++ headers ++ ascii "\r\n" ++ response.body

def format (response : HTTPResponse) (boost : Boost) : HTTPResponse :=
  response.addHeader (ascii "Content-Length")
    (boost.intToString response.body.length)

/-- `End`: the response it leaves and the string it sends. -/
def finish (response : HTTPResponse) (boost : Boost) : HTTPResponse × Bytes :=
  let formatted := response.format boost
  (formatted, formatted.toText boost)

def cleanUp (response : HTTPResponse) : HTTPResponse :=
  { response with
    statusCode := 0
    statusMessage := []
    headersMap := ∅
    body := [] }

end HTTPResponse

end Woody
