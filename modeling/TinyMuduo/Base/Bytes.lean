import Mathlib.Data.List.Basic

/-!
# Bytes and source literals

A `char` of the source is a byte, a `std::string` or a stretch of buffer memory
is a list of bytes. Literals keep their spelling in the source (`ascii`).
-/

namespace TinyMuduo

abbrev Byte := UInt8

abbrev Bytes := List Byte

/-- The bytes of an ASCII literal of the source. -/
def ascii (s : String) : Bytes := s.toList.map fun c => UInt8.ofNat c.toNat

def cr : Byte := 13

def lf : Byte := 10

def space : Byte := 32

def colon : Byte := 58

def question : Byte := 63

def kCRLF : Bytes := [cr, lf]

/-- The bytes of a C string: everything before the first NUL, as `strlen`
counts them. -/
def cString (message : Bytes) : Bytes := message.takeWhile (· ≠ 0)

end TinyMuduo
