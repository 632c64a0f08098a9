import Woody.Foundation.Gluing
import Woody.HttpParser.Execute

/-!
# `http_parser` as a machine on bytes

What the parser does at a byte does not depend on the call that brings it, but
for the count of header bytes and for the way in which names, values, URLs and
bodies are cut into pieces.  The machine below reads every byte on its own and
reports a piece for it.
-/

namespace Woody

namespace HttpCallback

/-- Two pieces of one thing are glued. -/
def glue : HttpCallback → HttpCallback → Option HttpCallback
  | .url first, .url second => some (.url (first ++ second))
  | .headerField first, .headerField second =>
      some (.headerField (first ++ second))
  | .headerValue first, .headerValue second =>
      some (.headerValue (first ++ second))
  | .body first, .body second => some (.body (first ++ second))
  | _, _ => none

def gluing : Gluing HttpCallback where
  glue := glue
  glue_glue := by
    intro a b c ab bc first second
    cases a <;> cases b <;> cases first <;> cases c <;> cases second <;>
      exact ⟨_, rfl, by simp [glue]⟩
  glue_left_none := by
    intro a b c ab first apart
    cases a <;> cases b <;> cases first <;> cases c <;> cases apart <;> rfl
  glue_right_none := by
    intro a b c bc apart second
    cases b <;> cases c <;> cases second <;> cases a <;> cases apart <;> rfl

theorem glue_token (token : Token) (first second : Bytes) :
    gluing.glue (token.callback first) (token.callback second) =
      some (token.callback (first ++ second)) := by
  cases token <;> rfl

end HttpCallback

/-- A mark reports that something begins, and nothing of it yet. -/
def Effect.outputs : Effect → List HttpCallback
  | .mark token => [token.callback []]
  | .data _ => []
  | .notify callback => [callback]
  | .resetRead => []

namespace RequestParser

/-- A byte that leads into a token, or on in it, is a piece of the token. -/
def piece (parser : RequestParser) (ch : UInt8) : List HttpCallback :=
  match CountingParser.tokenAt parser.state with
  | some token => [token.callback [ch]]
  | none => []

end RequestParser

def Case.reaction (case : Case) (ch : UInt8) :
    Reaction RequestParser HttpCallback where
  state := case.parser
  outputs := case.effects.flatMap Effect.outputs ++
    match case.control with
    | .advance => case.parser.piece ch
    | .error | .exit => []
  verdict := case.control

namespace RequestParser

/-- One byte of a body. -/
def countDown (parser : RequestParser) : RequestParser := parser.minus 1

def reactHeaderField (parser : RequestParser) (ch : UInt8) :
    Reaction RequestParser HttpCallback :=
  if token ch ≠ 0 then
    ⟨parser.onFieldChar ch (token ch), [.headerField [ch]], .advance⟩
  else if ch = octet ':' then
    ⟨parser.goto .headerValueDiscardWs, [], .advance⟩
  else
    ⟨parser.setErrno .invalidHeaderToken, [], .error⟩

def reactHeaderValue (parser : RequestParser) (ch : UInt8) :
    Reaction RequestParser HttpCallback :=
  if ch = CR then ⟨parser.goto .headerAlmostDone, [], .advance⟩
  else if ch = LF then
    ((parser.goto .headerAlmostDone).onHeaderAlmostDone ch).reaction ch
  else
    match parser.onValueChar parser.headerState ch with
    | none => ⟨parser.setErrno .invalidContentLength, [], .error⟩
    | some found => ⟨store found, [.headerValue [ch]], .advance⟩

def reactBodyIdentity (parser : RequestParser) (ch : UInt8) :
    Reaction RequestParser HttpCallback :=
  let parser := parser.countDown
  if parser.contentLength = 0 then
    let reaction := (parser.goto .messageDone).onMessageDone.reaction ch
    { reaction with outputs := .body [ch] :: reaction.outputs }
  else
    ⟨parser, [.body [ch]], .advance⟩

def reactChunkData (parser : RequestParser) (ch : UInt8) :
    Reaction RequestParser HttpCallback :=
  let parser := parser.countDown
  ⟨if parser.contentLength = 0 then parser.goto .chunkDataAlmostDone
    else parser, [.body [ch]], .advance⟩

/-- What the machine does at a byte. -/
def react (parser : RequestParser) (ch : UInt8) :
    Reaction RequestParser HttpCallback :=
  match parser.state with
  | .headerField => parser.reactHeaderField ch
  | .headerValue => parser.reactHeaderValue ch
  | .bodyIdentity => parser.reactBodyIdentity ch
  | .chunkData => parser.reactChunkData ch
  | _ => (parser.onByte ch).reaction ch

end RequestParser

end Woody
