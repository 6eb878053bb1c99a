import TinyMuduo.Lib.Numeral
import TinyMuduo.Util.Buffer

/-!
# `HttpResponse`

Translation of `Http/httpresponse.h` and `Http/httpresponse.cc`. The
constructor leaves `status_code_` uninitialised: what the member holds until it
is set is an argument of `new`.
-/

namespace TinyMuduo

/-- `%d` and `%zd`. -/
def decimal (n : ℤ) : Bytes := Numeral.ofInt n

/-- `snprintf` into a buffer of the given size. -/
def snprintf (size : ℕ) (text : Bytes) : Bytes := text.take (size - 1)

structure HttpResponse where
  statusCode : ℤ
  statusMessage : Bytes
  body : Bytes
  type : Bytes
  closeConnection : Bool
deriving DecidableEq

namespace HttpResponse

def new (statusCode : ℤ) (closeConnection : Bool) : HttpResponse where
  statusCode := statusCode
  statusMessage := []
  body := []
  type := ascii "text/plain"
  closeConnection := closeConnection

def serverName : Bytes := ascii "Tiny_muduo"

/-- The line that says whether the connection stays open. -/
def appendConnection (response : HttpResponse) (buffer : Buffer) : Buffer :=
  if response.closeConnection then
    buffer.appendCString (ascii "Connection: close\r\n")
  else
    (buffer.appendCString
      (snprintf 32 (ascii "Content-Length: " ++ decimal response.body.length ++ ascii "\r\n")))
      |>.appendCString (ascii "Connection: Keep-Alive\r\n")

def appendToBuffer (response : HttpResponse) (buffer : Buffer) : Buffer :=
  let buffer := buffer.appendCString
    (snprintf 32 (ascii "HTTP/1.1 " ++ decimal response.statusCode ++ ascii " "))
  let buffer := buffer.appendString response.statusMessage
  let buffer := buffer.appendString kCRLF
  let buffer := response.appendConnection buffer
  let buffer := buffer.appendCString (ascii "Content-Type: ")
  let buffer := buffer.appendString response.type
  let buffer := buffer.appendString kCRLF
  let buffer := buffer.appendCString (ascii "Server: ")
  let buffer := buffer.appendString serverName
  let buffer := buffer.appendString kCRLF
  let buffer := buffer.appendString kCRLF
  buffer.appendString response.body

end HttpResponse

end TinyMuduo
