import Urdira.Lib.AssocMap
import Urdira.StructuralStore.Reader

namespace StructuralStore

inductive SegmentName where
  | base (generation : ℕ)
  | delta (generation : ℕ)
  deriving DecidableEq

def SegmentName.text : SegmentName → String
  | .base generation => "base-" ++ toString generation
  | .delta generation => "delta-" ++ toString generation ++ ".seg"

def Manifest.segmentNames (manifest : Manifest) : List SegmentName :=
  .base manifest.base :: manifest.deltas.map .delta

-- The files of the .readers directory; the content is none where it is not a marker.
abbrev Markers := List (String × Option (List String))

section Parsing

def parseU32 (text : List Char) : Option ℕ :=
  let digits := if text.head? = some '+' then text.tail else text
  if digits.isEmpty || !digits.all Char.isDigit then none
  else
    let value := Nat.ofDigitChars 10 digits 0
    if value < 2 ^ 32 then some value else none

def markerPid (fileName : String) : Option ℕ :=
  parseU32 (fileName.toList.takeWhile (fun c => c != '-'))

def markerName (pid nonce nanos : ℕ) : String :=
  toString pid ++ "-" ++ toString nonce ++ "-" ++ toString nanos

theorem parseU32_toDigits {n : ℕ} (h : n < 2 ^ 32) : parseU32 (Nat.toDigits 10 n) = some n := by
  have hdigit : ∀ c ∈ Nat.toDigits 10 n, c.isDigit = true :=
    fun c hc => Nat.isDigit_of_mem_toDigits (by decide) (by decide) hc
  have hne : Nat.toDigits 10 n ≠ [] := by simp
  have hplus : (Nat.toDigits 10 n).head? ≠ some '+' := by
    intro hhead
    have hmem := hdigit '+' (List.mem_of_mem_head? hhead)
    exact absurd hmem (by decide)
  have hall : ((Nat.toDigits 10 n).isEmpty || !(Nat.toDigits 10 n).all Char.isDigit) = false := by
    rw [List.all_eq_true.mpr hdigit, List.isEmpty_eq_false_iff.mpr hne]
    rfl
  have hvalue : Nat.ofDigitChars 10 (Nat.toDigits 10 n) 0 = n := by simp
  rw [parseU32, if_neg hplus, hall, hvalue, if_pos h]
  rfl

theorem markerPid_markerName {pid : ℕ} (h : pid < 2 ^ 32) (nonce nanos : ℕ) :
    markerPid (markerName pid nonce nanos) = some pid := by
  have hdigit : ∀ c ∈ Nat.toDigits 10 pid, (c != '-') = true := by
    intro c hc
    have hisDigit := Nat.isDigit_of_mem_toDigits (by decide) (by decide) hc
    refine bne_iff_ne.mpr ?_
    rintro rfl
    exact absurd hisDigit (by decide)
  have htext : (markerName pid nonce nanos).toList =
      Nat.toDigits 10 pid ++ '-' :: (Nat.toDigits 10 nonce ++ '-' :: Nat.toDigits 10 nanos) := by
    simp [markerName]
  rw [markerPid, htext, List.takeWhile_append_of_pos hdigit, List.takeWhile_cons_of_neg (by decide),
    List.append_nil,
    parseU32_toDigits h]

end Parsing

def register (markers : Markers) (pid nonce nanos : ℕ) (segments : List String) : Markers :=
  AssocMap.insert markers (markerName pid nonce nanos) (some segments)

section InUse

variable (alive : ℕ → Bool)

def segmentsInUse : Markers → List String × Markers
  | [] => ([], [])
  | (fileName, content) :: rest =>
    let (inUse, kept) := segmentsInUse rest
    match markerPid fileName with
    | none => (inUse, (fileName, content) :: kept)
    | some pid =>
      if alive pid then (content.getD [] ++ inUse, (fileName, content) :: kept) else (inUse, kept)

def Pinned (markers : Markers) (segment : String) : Prop :=
  ∃ marker ∈ markers, ∃ pid, markerPid marker.1 = some pid ∧ alive pid = true ∧
    ∃ segments, marker.2 = some segments ∧ segment ∈ segments

variable {alive}

theorem mem_segmentsInUse {markers : Markers} {segment : String} :
    segment ∈ (segmentsInUse alive markers).1 ↔ Pinned alive markers segment := by
  induction markers with
  | nil => simp [segmentsInUse, Pinned]
  | cons marker rest ih =>
    obtain ⟨fileName, content⟩ := marker
    have hcons : Pinned alive ((fileName, content) :: rest) segment ↔
        (∃ pid, markerPid fileName = some pid ∧ alive pid = true ∧
          ∃ segments, content = some segments ∧ segment ∈ segments) ∨
            Pinned alive rest segment := by
      simp [Pinned]
    rw [hcons, ← ih, segmentsInUse]
    dsimp only
    split
    · rename_i hpid
      simp [hpid]
    · rename_i pid hpid
      split_ifs with halive
      · cases content <;> simp [hpid, halive]
      · simp [hpid, halive]

theorem pinned_register {markers : Markers} {pid nonce nanos : ℕ} {segments : List String}
    {segment : String}
    (hself : alive pid = true) (hpid : pid < 2 ^ 32) (h : segment ∈ segments) :
    Pinned alive (register markers pid nonce nanos segments) segment := by
  refine ⟨(markerName pid nonce nanos, some segments), ?_, pid,
    markerPid_markerName hpid nonce nanos, hself,
    segments, rfl, h⟩
  exact AssocMap.mem_of_get (AssocMap.get_insert_self ..)

end InUse

end StructuralStore
