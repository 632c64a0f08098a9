import Woody.Base.Text

/-!
# HTTP requests

`HTTPRequest` with the setters the codec uses.  `CleanUp` is meant to make it
a new request again.
-/

namespace Woody

structure HTTPRequest where
  isUpgrade : Bool
  method : Bytes
  url : Bytes
  headersMap : StringMap
  methodGetParams : StringMap
  body : Bytes

namespace HTTPRequest

def init : HTTPRequest where
  isUpgrade := false
  method := []
  url := []
  headersMap := ∅
  methodGetParams := ∅
  body := []

def addHeader (request : HTTPRequest) (name value : Bytes) : HTTPRequest :=
  { request with headersMap := request.headersMap.insertPair name value }

/-- `GetHeader`: the result, and the out-parameter `value`, which is written
only when the header is found. -/
def getHeader (request : HTTPRequest) (name value : Bytes) : Bool × Bytes :=
  match request.headersMap.find name with
  | some found => (true, found)
  | none => (false, value)

/-- `GetGETParams`, in the same way. -/
def getGETParams (request : HTTPRequest) (name value : Bytes) :
    Bool × Bytes :=
  match request.methodGetParams.find name with
  | some found => (true, found)
  | none => (false, value)

def setUrl (request : HTTPRequest) (url : Bytes) : HTTPRequest :=
  { request with url := url }

def setMethod (request : HTTPRequest) (method : Bytes) : HTTPRequest :=
  { request with method := method }

def setBody (request : HTTPRequest) (body : Bytes) : HTTPRequest :=
  { request with body := body }

def setUpgrade (request : HTTPRequest) : HTTPRequest :=
  { request with isUpgrade := true }

/-- The loop of `ParseUrl` on the rest of the URL.  A name runs up to the next
`=`, across any `&`; a rest without `=` ends the loop. -/
def parseParams : Nat → Bytes → StringMap → StringMap
  | 0, _, params => params
  | fuel + 1, rest, params =>
      match rest.dropWhile (· ≠ 61) with
      | [] => params
      | _ :: behind =>
          let name := rest.takeWhile (· ≠ 61)
          let value := behind.takeWhile fun byte => byte ≠ 38 ∧ byte ≠ 32
          let later :=
            (behind.dropWhile fun byte => byte ≠ 38 ∧ byte ≠ 32).drop 1
          parseParams fuel later (params.assign name value)

/-- `ParseUrl`.  Every iteration takes a byte, so the fuel lasts. -/
def parseUrl (request : HTTPRequest) : HTTPRequest :=
  match request.url.dropWhile (· ≠ 63) with
  | [] => request
  | _ :: query =>
      { request with
        methodGetParams :=
          parseParams query.length query request.methodGetParams }

/-- `CleanUp` does not touch the body. -/
def cleanUp (request : HTTPRequest) : HTTPRequest :=
  { request with
    isUpgrade := false
    method := []
    url := []
    headersMap := ∅
    methodGetParams := ∅ }

end HTTPRequest

end Woody
