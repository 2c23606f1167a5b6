import Urdira.StructuralStore.RowCodec
import Urdira.Lib.BinarySearch

open ByteOrder MerkleBucket ByteLayout BinarySearch

namespace StructuralStore

class Xxh3 where
  hash : Bytes → Fin (2 ^ 64)

structure FileHeader where
  tableId : ℕ
  rowCount : ℕ
  generation : ℕ
  bodyXxh3 : ℕ
  deriving DecidableEq

structure FileHeader.Typed (header : FileHeader) : Prop where
  tableId : header.tableId < 2 ^ 16
  rowCount : header.rowCount < 2 ^ 64
  generation : header.generation < 2 ^ 64
  bodyXxh3 : header.bodyXxh3 < 2 ^ 64

namespace FileHeader

def fields (header : FileHeader) : List (ℕ × Bytes) :=
  [(0, headerMagic),
    (4, leBytes 2 headerFormat),
    (6, leBytes 2 header.tableId),
    (8, leBytes 8 header.rowCount),
    (16, leBytes 8 header.generation),
    (24, leBytes 8 header.bodyXxh3)]

def encode (header : FileHeader) : Bytes := writeFields (zeros headerLen) header.fields

def decode (bytes : Bytes) : Except Fault FileHeader :=
  if bytes.length < headerLen then .error (.error "segment file header truncated")
  else if readAt bytes 0 4 ≠ headerMagic then .error (.error "segment file bad magic")
  else
    let format := u16le bytes 4
    if format ≠ headerFormat then .error (.error s!"segment file unsupported format {format}")
    else .ok ⟨u16le bytes 6, u64le bytes 8, u64le bytes 16, u64le bytes 24⟩

end FileHeader

def headerAndData (bytes : Bytes) : Except Fault (FileHeader × Bytes) :=
  if bytes.length < headerLen then .error (.error "segment file shorter than header")
  else do
    let header ← FileHeader.decode bytes
    .ok (header, bytes.drop headerLen)

section Headers

@[simp] theorem length_headerMagic : headerMagic.length = 4 := by decide +kernel

@[simp] theorem FileHeader.length_encode (header : FileHeader) :
    header.encode.length = headerLen := by
  simp [FileHeader.encode]

theorem FileHeader.fields_fits (header : FileHeader) :
    Fits (zeros headerLen).length (header.fields.map span) := by
  have hspans : header.fields.map span = [(0, 4), (4, 2), (6, 2), (8, 8), (16, 8), (24, 8)] := by
    simp [FileHeader.fields]
  rw [hspans, length_zeros]
  decide

theorem FileHeader.decode_encode {header : FileHeader} (h : header.Typed) (data : Bytes) :
    FileHeader.decode (header.encode ++ data) = .ok header := by
  have hfits := header.fields_fits
  have hlen : ¬ (header.encode ++ data).length < headerLen := by simp
  have hread : ∀ off len : ℕ, off + len ≤ headerLen →
      readAt (header.encode ++ data) off len = readAt header.encode off len := by
    intro off len hle
    exact readAt_append_of_le (by rw [FileHeader.length_encode]; exact hle)
  have hmagic : readAt (header.encode ++ data) 0 4 = headerMagic := by
    rw [hread 0 4 (by decide)]
    have hmem : ((0, headerMagic) : ℕ × Bytes) ∈ header.fields := by simp [FileHeader.fields]
    have hself := readAt_writeFields hfits hmem
    rwa [length_headerMagic] at hself
  have hvalue : ∀ off w v : ℕ, off + w ≤ headerLen → (off, leBytes w v) ∈ header.fields →
      v < 256 ^ w →
      leValue (readAt (header.encode ++ data) off w) = v := by
    intro off w v hle hmem hv
    rw [hread off w hle]
    exact leValue_writeFields hfits hmem hv
  have hformat : u16le (header.encode ++ data) 4 = headerFormat :=
    hvalue 4 2 headerFormat (by decide) (by simp [FileHeader.fields]) (by decide)
  have htable : u16le (header.encode ++ data) 6 = header.tableId :=
    hvalue 6 2 header.tableId (by decide) (by simp [FileHeader.fields]) (lt_of_lt_of_le h.tableId
      (by decide))
  have hu64 : ∀ off v : ℕ, off + 8 ≤ headerLen → (off, leBytes 8 v) ∈ header.fields → v < 2 ^ 64 →
      u64le (header.encode ++ data) off = v :=
    fun off v hle hmem hv => hvalue off 8 v hle hmem (lt_of_lt_of_le hv (by decide))
  unfold FileHeader.decode
  rw [if_neg hlen, if_neg (not_not.mpr hmagic), hformat]
  simp only [ne_eq, not_true_eq_false, if_false, htable,
    hu64 8 header.rowCount (by decide) (by simp [FileHeader.fields]) h.rowCount,
    hu64 16 header.generation (by decide) (by simp [FileHeader.fields]) h.generation,
    hu64 24 header.bodyXxh3 (by decide) (by simp [FileHeader.fields]) h.bodyXxh3]

theorem headerAndData_encode {header : FileHeader} (h : header.Typed) (data : Bytes) :
    headerAndData (header.encode ++ data) = .ok (header, data) := by
  have hlen : ¬ (header.encode ++ data).length < headerLen := by simp
  have hdrop : (header.encode ++ data).drop headerLen = data := by
    rw [← header.length_encode, List.drop_left]
  unfold headerAndData
  rw [if_neg hlen, FileHeader.decode_encode h, hdrop]
  rfl

end Headers

abbrev nNibbles : ℕ := 16

abbrev Boundaries := ℕ → ℕ

section Framing

variable [Xxh3]

def hashOfPartitionHashes (parts : List (Fin (2 ^ 64))) : Fin (2 ^ 64) :=
  Xxh3.hash (parts.flatMap (fun part => leBytes 8 part.val))

def partitionHashes (data : Bytes) (boundaries : Boundaries) : List (Fin (2 ^ 64)) :=
  (List.range nNibbles).map (fun nib =>
    Xxh3.hash (slice data (boundaries nib) (boundaries (nib + 1))))

def framed (table : TableId) (generation rowCount : ℕ) (hash : Fin (2 ^ 64)) (body : Bytes) :
    Bytes :=
  FileHeader.encode ⟨table.toNat, rowCount, generation, hash.val⟩ ++ body

def encodeFramed (table : TableId) (generation rowCount : ℕ) (body : Bytes) : Bytes :=
  framed table generation rowCount (Xxh3.hash body) body

def encodeFramedPartitioned (table : TableId) (generation rowCount : ℕ) (body : Bytes)
    (boundaries : Boundaries) : Bytes :=
  framed table generation rowCount (hashOfPartitionHashes (partitionHashes body boundaries)) body

omit [Xxh3] in
theorem TableId.toNat_lt (table : TableId) : table.toNat < 2 ^ 16 := by
  cases table <;> decide

variable {table : TableId} {generation rowCount : ℕ}

omit [Xxh3] in
theorem framedHeader_typed (hg : generation < 2 ^ 64) (hn : rowCount < 2 ^ 64)
    (hash : Fin (2 ^ 64)) :
    FileHeader.Typed ⟨table.toNat, rowCount, generation, hash.val⟩ :=
  ⟨table.toNat_lt, hn, hg, hash.isLt⟩

omit [Xxh3] in
theorem headerAndData_framed (hg : generation < 2 ^ 64) (hn : rowCount < 2 ^ 64)
    (hash : Fin (2 ^ 64))
    (body : Bytes) : headerAndData (framed table generation rowCount hash body) =
      .ok (⟨table.toNat, rowCount, generation, hash.val⟩, body) :=
  headerAndData_encode (framedHeader_typed hg hn hash) body

omit [Xxh3] in
theorem decode_framed (hg : generation < 2 ^ 64) (hn : rowCount < 2 ^ 64) (hash : Fin (2 ^ 64))
    (body : Bytes) : FileHeader.decode (framed table generation rowCount hash body) =
      .ok ⟨table.toNat, rowCount, generation, hash.val⟩ :=
  FileHeader.decode_encode (framedHeader_typed hg hn hash) body

omit [Xxh3] in
@[simp] theorem length_framed (hash : Fin (2 ^ 64)) (body : Bytes) :
    (framed table generation rowCount hash body).length = headerLen + body.length := by
  simp [framed]

omit [Xxh3] in
theorem drop_framed (hash : Fin (2 ^ 64)) (body : Bytes) :
    (framed table generation rowCount hash body).drop headerLen = body := by
  unfold framed
  rw [← FileHeader.length_encode ⟨table.toNat, rowCount, generation, hash.val⟩, List.drop_left]

end Framing

section Boundaries

def advanceNibble (keys : List Digest32) (cur nib : ℕ) : ℕ :=
  cur + ((keys.drop cur).takeWhile (fun key => decide (topNibble key = nib))).length

def nibbleStart (keys : List Digest32) (nib : ℕ) : ℕ :=
  (List.range nib).foldl (advanceNibble keys) 0

def rowBoundaries (keys : List Digest32) : Boundaries := fun nib =>
  if nib < nNibbles then nibbleStart keys nib else keys.length

def strideBoundaries (boundaries : Boundaries) (stride : ℕ) : Boundaries := fun nib =>
  boundaries nib * stride

def offsetBoundaries (boundaries : Boundaries) (offsets : List ℕ) (total : ℕ) :
    Boundaries := fun nib =>
  if nib < nNibbles then offsets.getD (boundaries nib) total else total

end Boundaries

end StructuralStore
