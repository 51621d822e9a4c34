import ExpressionArt.Picture.Basic

/-!
# PNG files

The bytes of a picture as a PNG file: a signature and three chunks, each with its length, its
type and a checksum. Each row stands behind a byte which says that it is not filtered, and the
rows are stored in blocks without compression.
-/

namespace ExpressionArt

namespace Png

/-- The four bytes of a word, the highest first. -/
def word (n : UInt32) : List UInt8 :=
  [(n >>> 24).toUInt8, (n >>> 16).toUInt8, (n >>> 8).toUInt8, n.toUInt8]

/-- The two bytes of a number below `2 ^ 16`, the lower first. -/
def lowFirst (n : Nat) : List UInt8 := [n.toUInt8, (n / 256).toUInt8]

/-! ## Checksums -/

/-- One step of a polynomial division, the lowest bit first. -/
def divisionStep (c : UInt32) : UInt32 :=
  if c &&& 1 = 1 then (c >>> 1) ^^^ 0xEDB88320 else c >>> 1

def remainderByte (c : UInt32) (b : UInt8) : UInt32 :=
  Nat.repeat divisionStep 8 (c ^^^ b.toUInt32)

/-- The cyclic checksum of a chunk. -/
def cyclicSum (bytes : List UInt8) : UInt32 :=
  bytes.foldl remainderByte 0xFFFFFFFF ^^^ 0xFFFFFFFF

/-- A sum of bytes, and a sum of its values after each byte. -/
def addByte (sums : UInt32 × UInt32) (b : UInt8) : UInt32 × UInt32 :=
  let first := (sums.1 + b.toUInt32) % 65521
  (first, (sums.2 + first) % 65521)

/-- The checksum of the data of a stream. -/
def doubleSum (bytes : List UInt8) : UInt32 :=
  let (first, second) := bytes.foldl addByte (1, 0)
  second * 65536 + first

/-! ## Streams -/

/-- A block holds at most this many bytes. -/
def maxBlock : Nat := 65535

/-- Bytes in a block as they are, with their number and its complement in front. -/
def block (last : Bool) (bytes : List UInt8) : List UInt8 :=
  (if last then 1 else 0) ::
    (lowFirst bytes.length ++ lowFirst (maxBlock - bytes.length) ++ bytes)

def blocks (bytes : List UInt8) : List UInt8 :=
  if bytes.length ≤ maxBlock then block true bytes
  else block false (bytes.take maxBlock) ++ blocks (bytes.drop maxBlock)
termination_by bytes.length
decreasing_by
  rw [List.length_drop]
  have : 0 < maxBlock := by decide
  omega

def stream (bytes : List UInt8) : List UInt8 :=
  [0x78, 0x01] ++ blocks bytes ++ word (doubleSum bytes)

/-! ## Chunks -/

def chunk (type : String) (data : List UInt8) : List UInt8 :=
  let body := type.toUTF8.toList ++ data
  word data.length.toUInt32 ++ body ++ word (cyclicSum body)

def signature : List UInt8 := [0x89, 0x50, 0x4E, 0x47, 0x0D, 0x0A, 0x1A, 0x0A]

/-- Width, height, eight bits to a channel, four channels, and no options. -/
def header (p : Picture) : List UInt8 :=
  word p.width.toUInt32 ++ word p.height.toUInt32 ++ [8, 6, 0, 0, 0]

/-- The rows of a picture, none of them filtered. -/
def rows (p : Picture) : List UInt8 :=
  (List.range p.height).flatMap fun row =>
    0 :: (p.bytes.extract (4 * p.width * row) (4 * p.width * (row + 1))).toList

end Png

/-- The bytes of a picture as a PNG file. -/
def Picture.png (p : Picture) : ByteArray :=
  ⟨(Png.signature ++ Png.chunk "IHDR" (Png.header p) ++
    Png.chunk "IDAT" (Png.stream (Png.rows p)) ++ Png.chunk "IEND" []).toArray⟩

namespace Png

theorem length_word (n : UInt32) : (word n).length = 4 := rfl

/-- A block takes five bytes more than it holds. -/
theorem length_block (last : Bool) (bytes : List UInt8) :
    (block last bytes).length = bytes.length + 5 := by
  simp [block, lowFirst]

/-- A chunk takes its data, its type, its length and its checksum. -/
theorem length_chunk (type : String) (data : List UInt8) :
    (chunk type data).length = data.length + type.toUTF8.toList.length + 8 := by
  simp [chunk, length_word]
  omega

end Png

end ExpressionArt
