import Netlib.Spec.HttpReply

/-!
# HTTP requests (`netio/httpmsg.hpp`)

A request as a text, and the getters of `HttpSvrRecvMsg`. The grammar says of the header
lines only what the parser rests on: no CR LF inside, one Content-Length, and no other line
that begins like one.
-/

namespace Netlib

open HttpMsg HttpSvrSendMsg

/-- A request with a body. -/
structure HttpRequest where
  method : List Byte
  url : List Byte
  version : List Byte
  /-- The header lines before the Content-Length. -/
  before : List (List Byte)
  /-- The header lines after it. -/
  after : List (List Byte)
  body : List Byte
  sp_method : sp ∉ method
  sp_url : sp ∉ url
  crlf_version : ¬ [cr, lf] <:+: version
  crlf_headers : ∀ l ∈ before ++ after, l ≠ [] ∧ ¬ [cr, lf] <:+: l
  one_length : ∀ l ∈ before ++ after, ¬ _constr.take 14 <+: l
  body_pos : 1 ≤ body.length
  body_lt : body.length < 2 ^ 31

/-- `POST / HTTP/1.1` with a header line on either side of the Content-Length. -/
example : HttpRequest where
  method := chars ['P', 'O', 'S', 'T']
  url := chars ['/']
  version := defaultVersion
  before := [chars ['H', 'o', 's', 't', ':', ' ', 'a']]
  after := [chars ['A', 'g', 'e', ':', ' ', '1']]
  body := chars ['h', 'i']
  sp_method := by decide
  sp_url := by decide
  crlf_version := by decide
  crlf_headers := by decide
  one_length := by decide
  body_pos := by decide
  body_lt := by decide

namespace HttpRequest

variable (r : HttpRequest)

/-- The Content-Length line. -/
def lengthLine : List Byte := _constr ++ decimal r.body.length

def headers : List (List Byte) := r.before ++ [r.lengthLine] ++ r.after

/-- The start line without its CR LF. -/
def requestLine : List Byte := r.method ++ [sp] ++ r.url ++ [sp] ++ r.version

/-- The header lines and the empty line. -/
def headerBytes : List Byte := (r.headers.flatMap fun l => l ++ [cr, lf]) ++ [cr, lf]

/-- The text of the request. -/
def bytes : List Byte := r.requestLine ++ [cr, lf] ++ r.headerBytes ++ r.body

end HttpRequest

namespace HttpSvrRecvMsg

def getMethod (m : HttpMsg) : List Byte := m.getLine1

def getUrl (m : HttpMsg) : List Byte := m.getLine2

def getVersion (m : HttpMsg) : List Byte := m.getLine3

def getRequestLine (m : HttpMsg) : List Byte := m.getStartLine

/-- **The request is read**: the getters return its parts, and nothing more is consumed. The
empty line is the last header; after it `NextHeader` has nothing more to return. -/
structure Parsed (m : HttpMsg) (r : HttpRequest) : Prop where
  flag : m._flag = .over
  method : getMethod m = r.method
  url : getUrl m = r.url
  version : getVersion m = r.version
  requestLine : getRequestLine m = r.requestLine
  header : m.getHeader = r.headerBytes
  headers : ∀ n, m.nextHeaders n = (r.headers ++ List.replicate n []).take n
  body : m.getBody = r.body
  done : ∀ buf, parse m buf = .ok (0, m)

end HttpSvrRecvMsg

end Netlib
