import Gsd.Disk

/-!
The on-disk records and the constants of `gsd.c`. `gsd.h` is not part of the repository, so
the header, the index entry, the error codes and the type codes are modelled from the spec:
a 256-byte header and a 64-byte index entry laid out as its tables give them (the 16-bit `id`,
which the entry table omits, sits in the first two reserved bytes). Every record is a sequence
of little-endian fields, and reading a record back from its bytes is exact in both directions,
which is what lets relocations copy either the bytes or the decoded records.
-/

namespace Gsd

/-- Magic value identifying a GSD file. -/
def gsdMagicId : Nat := 0x65DF65DF65DF65DF

def gsdInitialIndexSize : Nat := 128

def gsdInitialNamelistSize : Nat := 65535

def gsdCopyBufferSize : Nat := 1024 * 16

/-- `UINT16_MAX`, the "not found" id of the name lookup. -/
def uint16Max : Nat := 65535

/-- `sizeof(struct gsd_header)`, `sizeof(struct gsd_index_entry)` and
`sizeof(struct gsd_namelist_entry)`: modelled from the spec. -/
def headerSize : Nat := 256

def entrySize : Nat := 64

def namelistEntrySize : Nat := 64

/-- The page size `getpagesize()` returns on the platforms that map the index. -/
def pageSize : Nat := 4096

/-- Modelled from the spec: the error codes of `gsd.h`, and one outcome that is no code:
`fault`, a call that touches memory it does not own (a mapped page wholly past the end of the
file raises `SIGBUS`; past a buffer the behaviour is undefined) and so never returns one. -/
inductive GsdError
  | io
  | invalidArgument
  | notAGsdFile
  | invalidGsdFileVersion
  | fileCorrupt
  | memoryAllocationFailed
  | namelistFull
  | fileMustBeWritable
  | fileMustBeReadable
  | fault
  deriving DecidableEq, Repr

inductive GsdOpenFlag
  | readwrite
  | readonly
  | append
  deriving DecidableEq, Repr

/-- Modelled from the spec: the codes of `enum gsd_type`, in the order the spec lists the
primitive types. -/
def gsdTypeUint8 : Nat := 1
def gsdTypeUint16 : Nat := 2
def gsdTypeUint32 : Nat := 3
def gsdTypeUint64 : Nat := 4
def gsdTypeInt8 : Nat := 5
def gsdTypeInt16 : Nat := 6
def gsdTypeInt32 : Nat := 7
def gsdTypeInt64 : Nat := 8
def gsdTypeFloat : Nat := 9
def gsdTypeDouble : Nat := 10

def gsdSizeofType (type : Nat) : Nat :=
  if type = gsdTypeUint8 then 1
  else if type = gsdTypeUint16 then 2
  else if type = gsdTypeUint32 then 4
  else if type = gsdTypeUint64 then 8
  else if type = gsdTypeInt8 then 1
  else if type = gsdTypeInt16 then 2
  else if type = gsdTypeInt32 then 4
  else if type = gsdTypeInt64 then 8
  else if type = gsdTypeFloat then 4
  else if type = gsdTypeDouble then 8
  else 0

private theorem ite_le_of_le {p : Prop} [Decidable p] {a b c : Nat} (ha : a ≤ c) (hb : b ≤ c) :
    (if p then a else b) ≤ c := by
  split <;> assumption

theorem gsdSizeofType_le (type : Nat) : gsdSizeofType type ≤ 8 := by
  unfold gsdSizeofType
  iterate 10 refine ite_le_of_le (by decide) ?_
  decide

/-- `major << 16 | minor` in `unsigned int`. -/
def gsdMakeVersion (major minor : Nat) : Nat := (major <<< 16) % 2 ^ 32 ||| minor % 2 ^ 32

/-- The size of a chunk as `gsd.c` computes it: `N * M * gsd_sizeof_type(type)` in `size_t`. -/
def chunkSize (N M type : Nat) : Nat := N * M % 2 ^ 64 * gsdSizeofType type % 2 ^ 64

/-- `struct gsd_header`. The character arrays are kept as the bytes they hold. -/
structure GsdHeader where
  magic : Nat
  indexLocation : Nat
  namelistLocation : Nat
  indexAllocatedEntries : Nat
  namelistAllocatedEntries : Nat
  schemaVersion : Nat
  gsdVersion : Nat
  application : List UInt8
  schema : List UInt8
  reserved : List UInt8
  deriving DecidableEq, Repr

namespace GsdHeader

def toBytes (h : GsdHeader) : List UInt8 :=
  encodeLE 8 h.magic ++ encodeLE 8 h.indexLocation ++ encodeLE 8 h.namelistLocation ++
    encodeLE 8 h.indexAllocatedEntries ++ encodeLE 8 h.namelistAllocatedEntries ++
    encodeLE 4 h.schemaVersion ++ encodeLE 4 h.gsdVersion ++ h.application ++ h.schema ++
    h.reserved

def ofBytes (bs : List UInt8) : GsdHeader :=
  let (magic, bs) := readLE 8 bs
  let (indexLocation, bs) := readLE 8 bs
  let (namelistLocation, bs) := readLE 8 bs
  let (indexAllocatedEntries, bs) := readLE 8 bs
  let (namelistAllocatedEntries, bs) := readLE 8 bs
  let (schemaVersion, bs) := readLE 4 bs
  let (gsdVersion, bs) := readLE 4 bs
  let (application, bs) := readBytes 64 bs
  let (schema, bs) := readBytes 64 bs
  { magic, indexLocation, namelistLocation, indexAllocatedEntries, namelistAllocatedEntries,
    schemaVersion, gsdVersion, application, schema, reserved := (readBytes 80 bs).1 }

/-- Every field fits its C type and every array has its declared length. -/
structure Wf (h : GsdHeader) : Prop where
  magic_lt : h.magic < 2 ^ 64
  indexLocation_lt : h.indexLocation < 2 ^ 64
  namelistLocation_lt : h.namelistLocation < 2 ^ 64
  indexAllocatedEntries_lt : h.indexAllocatedEntries < 2 ^ 64
  namelistAllocatedEntries_lt : h.namelistAllocatedEntries < 2 ^ 64
  schemaVersion_lt : h.schemaVersion < 2 ^ 32
  gsdVersion_lt : h.gsdVersion < 2 ^ 32
  application_length : h.application.length = 64
  schema_length : h.schema.length = 64
  reserved_length : h.reserved.length = 80

theorem length_toBytes {h : GsdHeader} (hw : h.Wf) : h.toBytes.length = headerSize := by
  simp [toBytes, hw.application_length, hw.schema_length, hw.reserved_length, headerSize]

theorem ofBytes_toBytes {h : GsdHeader} (hw : h.Wf) : ofBytes h.toBytes = h := by
  obtain ⟨h1, h2, h3, h4, h5, h6, h7, h8, h9, h10⟩ := hw
  rw [show (2 : Nat) ^ 64 = 256 ^ 8 by norm_num] at h1 h2 h3 h4 h5
  rw [show (2 : Nat) ^ 32 = 256 ^ 4 by norm_num] at h6 h7
  simp only [toBytes, List.append_assoc]
  rw [← List.append_nil h.reserved]
  simp only [ofBytes, readLE_encodeLE_of_lt, readBytes_append, *]

theorem wf_ofBytes {bs : List UInt8} (hl : bs.length = headerSize) : (ofBytes bs).Wf := by
  have hlt := fun w (l : List UInt8) => (decodeLE_lt (l.take w)).trans_le
    (Nat.pow_le_pow_right (by decide) (List.length_take_le w l))
  simp only [headerSize] at hl
  refine ⟨hlt 8 _, hlt 8 _, hlt 8 _, hlt 8 _, hlt 8 _, hlt 4 _, hlt 4 _, ?_, ?_, ?_⟩ <;>
    simp [ofBytes, readLE, readBytes, hl]

end GsdHeader

/-- `struct gsd_index_entry`, with its reserved bytes as one little-endian number. -/
structure GsdIndexEntry where
  frame : Nat
  N : Nat
  location : Nat
  M : Nat
  type : Nat
  flags : Nat
  id : Nat
  reserved : Nat
  deriving DecidableEq, Repr, Inhabited

namespace GsdIndexEntry

def toBytes (e : GsdIndexEntry) : List UInt8 :=
  encodeLE 8 e.frame ++ encodeLE 8 e.N ++ encodeLE 8 e.location ++ encodeLE 4 e.M ++
    encodeLE 1 e.type ++ encodeLE 1 e.flags ++ encodeLE 2 e.id ++ encodeLE 32 e.reserved

def ofBytes (bs : List UInt8) : GsdIndexEntry :=
  let (frame, bs) := readLE 8 bs
  let (N, bs) := readLE 8 bs
  let (location, bs) := readLE 8 bs
  let (M, bs) := readLE 4 bs
  let (type, bs) := readLE 1 bs
  let (flags, bs) := readLE 1 bs
  let (id, bs) := readLE 2 bs
  { frame, N, location, M, type, flags, id, reserved := (readLE 32 bs).1 }

/-- Every field fits its C type. -/
structure Wf (e : GsdIndexEntry) : Prop where
  frame_lt : e.frame < 2 ^ 64
  N_lt : e.N < 2 ^ 64
  location_lt : e.location < 2 ^ 64
  M_lt : e.M < 2 ^ 32
  type_lt : e.type < 2 ^ 8
  flags_lt : e.flags < 2 ^ 8
  id_lt : e.id < 2 ^ 16
  reserved_lt : e.reserved < 2 ^ 256

@[simp] theorem length_toBytes (e : GsdIndexEntry) : e.toBytes.length = entrySize := by
  simp [toBytes, entrySize]

theorem ofBytes_toBytes {e : GsdIndexEntry} (hw : e.Wf) : ofBytes e.toBytes = e := by
  obtain ⟨h1, h2, h3, h4, h5, h6, h7, h8⟩ := hw
  rw [show (2 : Nat) ^ 64 = 256 ^ 8 by norm_num] at h1 h2 h3
  rw [show (2 : Nat) ^ 32 = 256 ^ 4 by norm_num] at h4
  rw [show (2 : Nat) ^ 8 = 256 ^ 1 by norm_num] at h5 h6
  rw [show (2 : Nat) ^ 16 = 256 ^ 2 by norm_num] at h7
  rw [show (2 : Nat) ^ 256 = 256 ^ 32 by norm_num] at h8
  simp only [toBytes, List.append_assoc]
  rw [← List.append_nil (encodeLE 32 e.reserved)]
  simp only [ofBytes, readLE_encodeLE_of_lt, *]

/-- Decoding an entry and encoding it again gives back its 64 bytes, reserved bytes included. -/
theorem toBytes_ofBytes {bs : List UInt8} (hl : bs.length = entrySize) : (ofBytes bs).toBytes = bs := by
  simp only [entrySize] at hl
  simp only [ofBytes, toBytes, List.append_assoc]
  simp (disch := simp [readLE, hl]) only [encodeLE_readLE, encodeLE_readLE_of_length]

end GsdIndexEntry

end Gsd
