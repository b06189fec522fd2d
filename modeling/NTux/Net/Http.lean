import Mathlib.Data.List.Basic
import Mathlib.Algebra.Group.Nat.Defs
import Mathlib.Algebra.Group.Int.Defs

/-!
# The HTTP system calls

`INT80_NET_HTTP_GET` and `INT80_NET_HTTP_POST` of `syscall/int80.c`.  The handlers take the
URL apart, connect, send a request, collect what the server sends, and interpret it; both
copies of the interpretation are the same text.

A line of the header is cut out of the buffer.  What the handlers write into the buffer on
the way is seen again in one place: `*val = ':'` stores the colon behind the blanks that have
been skipped, and `location` points there.
-/

namespace NTux.Net

/-- The bytes of a string up to the zero that ends it. -/
abbrev CString := List UInt8

/-- The bytes of a literal. -/
def ascii (s : String) : CString := s.toList.map fun c => UInt8.ofNat c.toNat

def cr : UInt8 := 13
def lf : UInt8 := 10
def blank : UInt8 := 32
def colon : UInt8 := 58
def slash : UInt8 := 47

/-- The end of a line. -/
def crlf : List UInt8 := [cr, lf]

/-! ## URLs -/

/-- What a URL begins with. -/
inductive UrlKind
  | https
  | http (rest : CString)
  | other

/-- The tests for `https://` and `http://`. -/
def urlKind (url : CString) : UrlKind :=
  if (ascii "https://").isPrefixOf url then .https
  else if (ascii "http://").isPrefixOf url then .http (url.drop 7)
  else .other

/-- The host and the path of what is behind `http://`. -/
def splitUrl (p : CString) : CString × CString :=
  if slash ∈ p then
    ((p.takeWhile (· != slash)).take 127, (p.dropWhile (· != slash)).take 255)
  else (p.take 127, [slash])

/-- The URL of a redirection; `curr_url` has room for 511 bytes. -/
def nextUrl (host location : CString) : CString :=
  let location := location.takeWhile fun c => c != cr && c != lf
  if location.head? = some slash then ((ascii "http://" ++ host ++ location).take 510).take 511
  else location.take 511

/-! ## Requests -/

/-- Strings are put behind one another until `limit` bytes are there. -/
def fillRequest (limit : Nat) (parts : List CString) : CString :=
  parts.foldl (fun req s => req ++ s.take (limit - req.length)) []

/-- The parts of the request of `INT80_NET_HTTP_GET`. -/
def getParts (host path : CString) : List CString :=
  [ascii "GET ", path, ascii " HTTP/1.1\r\nHost: ", host,
    ascii "\r\nUser-Agent: NTux-Browser/1.0\r\nAccept: text/html,*/*;q=0.8\r\n" ++
      ascii "Accept-Language: en\r\nConnection: close\r\n\r\n"]

/-- `len_str`. -/
def decimal (n : Nat) : CString := (Nat.toDigits 10 n).map fun c => UInt8.ofNat c.toNat

/-- The parts of the request of `INT80_NET_HTTP_POST`, without its body. -/
def postParts (host path body : CString) : List CString :=
  [ascii "POST ", path, ascii " HTTP/1.1\r\nHost: ", host,
    ascii "\r\nUser-Agent: NTux-Browser/1.0\r\nAccept: text/html,*/*;q=0.8\r\n" ++
      ascii "Accept-Language: en\r\nContent-Type: application/x-www-form-urlencoded\r\n" ++
      ascii "Content-Length: ",
    decimal body.length, ascii "\r\nConnection: close\r\n\r\n"]

/-! ## Responses -/

/-- The text before the first `sep`, and what is behind it. -/
def cutSeq (sep : List UInt8) : List UInt8 → Option (List UInt8 × List UInt8)
  | [] => none
  | c :: s =>
      if sep.isPrefixOf (c :: s) then some ([], (c :: s).drop sep.length)
      else (cutSeq sep s).map fun (a, b) => (c :: a, b)

def isDigit (c : UInt8) : Bool := 48 ≤ c && c ≤ 57

/-- Decimal digits in an `int`. -/
def digitsInt (s : List UInt8) : Int :=
  s.foldl (fun v c => (v * 10 + (c.toNat - 48 : Int)).bmod (2 ^ 32)) 0

/-- `status`: the number behind the first blank. -/
def statusOf (buf : List UInt8) : Int :=
  match buf.dropWhile fun c => c != 0 && c != blank with
  | c :: s => if c = blank then digitsInt (s.takeWhile isDigit) else 0
  | [] => 0

/-- `atoi`. -/
def atoi (s : CString) : Int :=
  match s.dropWhile (· == blank) with
  | 45 :: t => (-digitsInt (t.takeWhile isDigit)).bmod (2 ^ 32)
  | 43 :: t => digitsInt (t.takeWhile isDigit)
  | t => digitsInt (t.takeWhile isDigit)

/-- A capital letter made small. -/
def lower (c : UInt8) : UInt8 := if 65 ≤ c ∧ c ≤ 90 then c + 32 else c

/-- `str_has_ci`. -/
def strHasCi (sub : CString) : CString → Bool
  | [] => false
  | c :: s => (sub.map (· ||| 32)).isPrefixOf ((c :: s).map (· ||| 32)) || strHasCi sub s

/-- What the loop over the header has found. -/
structure Header where
  contentLen : Int
  isChunked : Bool
  location : Option CString
  deriving DecidableEq

/-- One line of the header. -/
def headerLine (h : Header) (line : List UInt8) : Header :=
  let stop := fun c : UInt8 => c != 0 && c != colon
  match line.dropWhile stop with
  | c :: rest =>
      if c = colon then
        let name := line.takeWhile stop
        let val := rest.dropWhile (· == blank)
        let text := val.takeWhile (· != 0)
        if name = ascii "Content-Length" then { h with contentLen := atoi text }
        else if name = ascii "Location" then
          -- the colon is stored where the value begins
          { h with location := some ((colon :: val.tail).takeWhile (· != 0)) }
        else if name.map lower = ascii "transfer-encoding" && strHasCi (ascii "chunked") text then
          { h with isChunked := true }
        else h
      else h
  | [] => h

/-- The lines the loop finds before `hdr_end`: those whose end lies before it too. -/
def headerLines : Nat → List UInt8 → List (List UInt8)
  | 0, _ => []
  | fuel + 1, s =>
      match cutSeq crlf s with
      | none => []
      | some (line, rest) => line :: headerLines fuel rest

/-- The value of a hexadecimal digit, and 0 for any other byte. -/
def hexValue (c : UInt8) : Nat :=
  if 48 ≤ c ∧ c ≤ 57 then c.toNat - 48
  else if 97 ≤ c ∧ c ≤ 102 then c.toNat - 87
  else if 65 ≤ c ∧ c ≤ 70 then c.toNat - 55
  else 0

/-- `chunk_sz`. -/
def chunkSize (line : List UInt8) : Nat :=
  (line.takeWhile (· != 0)).foldl (fun v c => (v * 16 + hexValue c) % 2 ^ 32) 0

/-- The chunks put together, or nothing where one of them is longer than what there is. -/
def dechunk : Nat → List UInt8 → Option (List UInt8)
  | 0, _ => some []
  | fuel + 1, src =>
      match cutSeq crlf src with
      | none => some []
      | some (line, rest) =>
          if chunkSize line = 0 then some []
          else if rest.length < chunkSize line then none
          else (dechunk fuel (rest.drop (chunkSize line + 2))).map (rest.take (chunkSize line) ++ ·)

/-- A response taken apart. -/
structure Interpreted where
  status : Int
  lines : List (List UInt8)
  header : Header
  body : List UInt8

/-- The response as it is taken apart, if there is an empty line behind its header. -/
def interpret (buf : List UInt8) : Option Interpreted :=
  (cutSeq (crlf ++ crlf) buf).map fun (head, body) =>
    let lines := headerLines head.length head
    ⟨statusOf buf, lines, lines.foldl headerLine ⟨-1, false, none⟩, body⟩

/-- Where a response sends the handler, if it does. -/
def Interpreted.redirect (r : Interpreted) : Option CString :=
  if 300 ≤ r.status ∧ r.status < 400 then r.header.location else none

/-- The body of a response, before it is cut to what the caller has room for. -/
def Interpreted.content (r : Interpreted) : Option (List UInt8) :=
  if r.header.isChunked then dechunk r.body.length r.body
  else if 0 ≤ r.header.contentLen ∧ r.header.contentLen < r.body.length then
    some (r.body.take r.header.contentLen.toNat)
  else some r.body

/-! ## The handlers -/

/-- What happens at a connection. -/
structure Exchange where
  resolves : CString → Bool
  connects : Bool
  /-- What the calls of `network_tcp_recv` return, one after the other. -/
  received : List (List UInt8)

/-- What the loop over `network_tcp_recv` collects. -/
def Exchange.response (e : Exchange) : List UInt8 :=
  (e.received.takeWhile (· ≠ [])).flatten.take 65536

/-- A request that has been sent. -/
structure Sent where
  host : CString
  path : CString
  data : List UInt8
  deriving DecidableEq

/-- What a handler returns in `rax`, what it stores in the buffer of the caller, whether it
reports a failure, and what it has sent. -/
structure Reply where
  rax : Int
  out : List UInt8
  failed : Bool
  sent : List Sent

/-- A message is stored and its length returned. -/
def message (text : CString) (cap : Nat) (failed : Bool) (sent : List Sent) : Reply :=
  ⟨(text.take cap).length, text.take cap, failed, sent⟩

def httpsText : CString := ascii "HTTPS not supported.\n"
def getFailed : CString := ascii "HTTP request failed.\n"
def postFailed : CString := ascii "HTTP POST request failed.\n"

/-- The end of a request that got a response of status 2xx.  Chunks that are longer than the
response make the handler copy what is behind its buffer. -/
def deliver (content : Option (List UInt8)) (cap : Nat) (sent : List Sent) : Option Reply :=
  content.map fun body =>
    ⟨(body.take (cap - 1)).length, body.take (cap - 1) ++ [0], false, sent⟩

/-- `network_tcp_send`, by a connection that takes all bytes. -/
def networkTcpSend (data : List UInt8) : Int := data.length

/-- The loop of `INT80_NET_HTTP_GET`; `k` redirections are left.  It returns nothing where it
leaves its buffer. -/
def getLoop (server : Nat → Exchange) (cap : Nat) : Nat → CString → List Sent → Option Reply
  | 0, _, sent => some (message getFailed cap true sent)
  | k + 1, url, sent =>
      match urlKind url with
      | .other => some (message getFailed cap true sent)
      | .https => some (message httpsText cap false sent)
      | .http p =>
          let (host, path) := splitUrl p
          let e := server (4 - k)
          if e.resolves host = false ∨ e.connects = false then
            some (message getFailed cap true sent)
          else
            let sent := sent ++ [⟨host, path, fillRequest 500 (getParts host path)⟩]
            match interpret e.response with
            | none => some (message getFailed cap true sent)
            | some r =>
                match r.redirect with
                | some location => getLoop server cap k (nextUrl host location) sent
                | none =>
                    if 200 ≤ r.status ∧ r.status < 300 then deliver r.content cap sent
                    else some (message getFailed cap true sent)

/-- The loop of `INT80_NET_HTTP_POST`. -/
def postLoop (server : Nat → Exchange) (cap : Nat) (body : CString) :
    Nat → CString → List Sent → Option Reply
  | 0, _, sent => some (message postFailed cap true sent)
  | k + 1, url, sent =>
      match urlKind url with
      | .other => some (message postFailed cap true sent)
      | .https => some (message httpsText cap false sent)
      | .http p =>
          let (host, path) := splitUrl p
          let e := server (4 - k)
          if e.resolves host = false ∨ e.connects = false then
            some (message postFailed cap true sent)
          else
            let req := fillRequest 1000 (postParts host path body)
            let header := sent ++ [⟨host, path, req⟩]
            if networkTcpSend req ≠ 0 then some (message postFailed cap true header)
            else
              let sent := sent ++ [⟨host, path, req ++ body⟩]
              if body ≠ [] ∧ networkTcpSend body ≠ 0 then some (message postFailed cap true sent)
              else
                match interpret e.response with
                | none => some (message postFailed cap true sent)
                | some r =>
                    match r.redirect with
                    | some location => postLoop server cap body k (nextUrl host location) sent
                    | none =>
                        if 200 ≤ r.status ∧ r.status < 300 then deliver r.content cap sent
                        else some (message postFailed cap true sent)

/-- The arguments of the two system calls, as far as they are accepted. -/
structure HttpArgs where
  url : CString
  cap : Nat
  body : CString
  urlShort : url.length < 512
  capPos : 0 < cap
  capMax : cap ≤ 65536
  bodyShort : body.length < 4096

/-- `INT80_NET_HTTP_GET`. -/
def httpGet (server : Nat → Exchange) (a : HttpArgs) : Option Reply :=
  getLoop server a.cap 5 a.url []

/-- `INT80_NET_HTTP_POST`. -/
def httpPost (server : Nat → Exchange) (a : HttpArgs) : Option Reply :=
  postLoop server a.cap a.body 5 a.url []

end NTux.Net
