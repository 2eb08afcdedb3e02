/-!
# Archives

Files packed into one, each as its bytes without compression. In front of every file stands a
header with its name, its length and a checksum; a directory at the end repeats the headers with the
places where they stand. Numbers are written with their lowest byte first.
-/
namespace SchemaAtlas.Archive

structure Entry where
  name : String
  data : ByteArray

/-- A number in a fixed count of bytes, the lowest one first. -/
def littleEndian : (width : Nat) → Nat → List UInt8
  | 0, _ => []
  | width + 1, n => n.toUInt8 :: littleEndian width (n / 256)

@[simp] theorem littleEndian_length (width n : Nat) : (littleEndian width n).length = width := by
  induction width generalizing n with
  | zero => rfl
  | succ width ih => simp [littleEndian, ih]

/-- Divides by the polynomial of the checksum once; its bits are written with the lowest power first. -/
def checksumStep (remainder : UInt32) : UInt32 :=
  if remainder &&& 1 = 1 then (remainder >>> 1) ^^^ 0xEDB88320 else remainder >>> 1

/-- The cyclic redundancy check in 32 bits, taken in with a byte more. -/
def checksumByte (remainder : UInt32) (byte : UInt8) : UInt32 :=
  (List.range 8).foldl (fun r _ => checksumStep r) (remainder ^^^ byte.toUInt32)

/-- The cyclic redundancy check of some bytes; it starts and ends with all its bits turned. -/
def checksum (data : ByteArray) : UInt32 :=
  data.foldl checksumByte 0xFFFFFFFF ^^^ 0xFFFFFFFF

/-- A file that comes with its place in the archive. -/
structure Placed where
  entry : Entry
  offset : Nat
  checksum : UInt32

namespace Placed

/-- The fields that both headers of a file hold. -/
def fields (p : Placed) : List (Nat × Nat) :=
  let size := p.entry.data.size
  -- The names are encoded as text; there is no compression; the date is the first of 1980.
  [(2, 20), (2, 0x0800), (2, 0), (2, 0), (2, 0x0021), (4, p.checksum.toNat), (4, size), (4, size),
   (2, p.entry.name.utf8ByteSize), (2, 0)]

end Placed

def encodeFields (fields : List (Nat × Nat)) : ByteArray :=
  (fields.flatMap fun field => littleEndian field.1 field.2).toByteArray

/-- A file with its header. -/
def Placed.record (p : Placed) : ByteArray :=
  encodeFields ((4, 0x04034b50) :: p.fields) ++ p.entry.name.toUTF8 ++ p.entry.data

/-- What the directory says about a file. -/
def Placed.listing (p : Placed) : ByteArray :=
  encodeFields
    ((4, 0x02014b50) :: (2, 20) :: p.fields ++ [(2, 0), (2, 0), (2, 0), (4, 0), (4, p.offset)])
    ++ p.entry.name.toUTF8

/-- The end of an archive: the count of its files, and the size and the place of its directory. -/
def closing (count size offset : Nat) : ByteArray :=
  encodeFields
    [(4, 0x06054b50), (2, 0), (2, 0), (2, count), (2, count), (4, size), (4, offset), (2, 0)]

/-- An archive while it is written: the files so far, and their part of the directory. -/
structure Draft where
  files : ByteArray
  directory : ByteArray

def Draft.add (d : Draft) (entry : Entry) : Draft :=
  let placed : Placed := ⟨entry, d.files.size, checksum entry.data⟩
  ⟨d.files ++ placed.record, d.directory ++ placed.listing⟩

/-- The bytes of an archive with some files, in this order. -/
def encode (entries : List Entry) : ByteArray :=
  let draft := entries.foldl Draft.add ⟨.empty, .empty⟩
  draft.files ++ draft.directory ++
    closing entries.length draft.directory.size draft.files.size

end SchemaAtlas.Archive
