import Urdira.StructuralStore.Layout
import Urdira.Lib.ByteReader

open ByteOrder MerkleBucket ByteLayout ByteReader

namespace StructuralStore

def unexpectedEof : Fault := .error "failed to fill whole buffer"

def invalidUtf8 : Fault := .error "invalid utf-8 sequence"

section Write

def writeU32 (v : ℕ) : Bytes := leBytes 4 v

def writeLpStr (v : Text) : Bytes := writeU32 v.length ++ v

def writeStrList (values : List Text) : Bytes := writeU32 values.length ++ values.flatMap writeLpStr

def writeStrPairList (values : List (Text × Text)) : Bytes :=
  writeU32 values.length ++ values.flatMap (fun p => writeLpStr p.1 ++ writeLpStr p.2)

def writeBytes32List (values : List Digest32) : Bytes :=
  writeU32 values.length ++ values.flatMap (fun v => v.bytes)

def writeDictBody (dict : Dictionaries) : Bytes :=
  writeStrList dict.kinds ++ writeStrList dict.universalKinds ++ writeStrList dict.relationKinds ++
    writeStrList dict.names ++ writeStrPairList dict.artifacts ++ writeStrList dict.facetNames ++
    writeStrList dict.subjectText ++ writeStrList dict.artifactPaths ++
      writeStrList dict.entityKinds

def writeSubjectsBody (subjects : List Digest32) : Bytes := writeBytes32List subjects

end Write

section Read

def readU32 : Read Fault ℕ := do
  let b ← readExact unexpectedEof 4
  pure (leValue b)

def readBytes32 : Read Fault Digest32 := do
  let b ← readExact unexpectedEof 32
  if h : b.length = 32 then pure ⟨b, h⟩ else throw unexpectedEof

def readLpBytes : Read Fault Bytes := do
  let len ← readU32
  readExact unexpectedEof len

def checkUtf8 (bytes : Bytes) : Read Fault Text :=
  match IdentityCodec.fromUtf8 bytes with
  | some text => pure text
  | none => throw invalidUtf8

def readLpString : Read Fault Text := do
  let bytes ← readLpBytes
  checkUtf8 bytes

def readStrList : Read Fault (List Text) := do
  let n ← readU32
  readMany readLpString n

def readStrPair : Read Fault (Text × Text) := do
  let a ← readLpString
  let b ← readLpString
  pure (a, b)

def readStrPairList : Read Fault (List (Text × Text)) := do
  let n ← readU32
  readMany readStrPair n

def readBytes32List : Read Fault (List Digest32) := do
  let n ← readU32
  readMany readBytes32 n

def readDictBody : Read Fault Dictionaries := do
  let kinds ← readStrList
  let universalKinds ← readStrList
  let relationKinds ← readStrList
  let names ← readStrList
  let artifacts ← readStrPairList
  let facetNames ← orDefault readStrList []
  let subjectText ← orDefault readStrList []
  let artifactPaths ← orDefault readStrList []
  let entityKinds ← orDefault readStrList []
  pure
    { kinds, universalKinds, relationKinds, names, artifacts, facetNames, subjectText,
      artifactPaths,
      entityKinds
      subjects := [] }

def readSubjectsBody : Read Fault (List Digest32) := readBytes32List

end Read

namespace Dictionaries

def texts (d : Dictionaries) : List Text :=
  d.kinds ++ d.universalKinds ++ d.relationKinds ++ d.names ++ d.artifacts.flatMap
    (fun p => [p.1, p.2]) ++
    d.facetNames ++ d.subjectText ++ d.artifactPaths ++ d.entityKinds

def totalEntries (d : Dictionaries) : ℕ :=
  d.kinds.length + d.universalKinds.length + d.relationKinds.length + d.names.length +
    d.artifacts.length + d.facetNames.length + d.subjectText.length + d.artifactPaths.length +
    d.entityKinds.length

def Typed (d : Dictionaries) : Prop := ∀ text ∈ d.texts, IdentityCodec.fromUtf8 text = some text

structure Storable (d : Dictionaries) : Prop where
  texts : ∀ text ∈ d.texts, text.length < 2 ^ 32
  kinds : d.kinds.length < 2 ^ 32
  universalKinds : d.universalKinds.length < 2 ^ 32
  relationKinds : d.relationKinds.length < 2 ^ 32
  names : d.names.length < 2 ^ 32
  subjects : d.subjects.length < 2 ^ 32
  artifacts : d.artifacts.length < 2 ^ 32
  facetNames : d.facetNames.length < 2 ^ 32
  subjectText : d.subjectText.length < 2 ^ 32
  artifactPaths : d.artifactPaths.length < 2 ^ 32
  entityKinds : d.entityKinds.length < 2 ^ 32

end Dictionaries

section RoundTrip

theorem reads_readU32 {v : ℕ} (h : v < 2 ^ 32) : Reads readU32 (writeU32 v) v := by
  have hexact : Reads (readExact unexpectedEof 4) (writeU32 v) (writeU32 v) := by
    have hread := reads_readExact unexpectedEof (leBytes 4 v)
    rwa [length_leBytes] at hread
  have hmap := hexact.map leValue
  have hvalue : leValue (writeU32 v) = v := leValue_leBytes (by omega)
  rwa [hvalue] at hmap

theorem reads_readBytes32 (digest : Digest32) : Reads readBytes32 digest.bytes digest := by
  have hexact : Reads (readExact unexpectedEof 32) digest.bytes digest.bytes := by
    have hread := reads_readExact unexpectedEof digest.bytes
    rwa [digest.size] at hread
  have hblock : Reads (if h : digest.bytes.length = 32 then pure (⟨digest.bytes, h⟩ : Digest32)
      else throw unexpectedEof : Read Fault Digest32) [] digest := by
    rw [dif_pos digest.size]
    exact reads_pure digest
  have hbind := hexact.bind
    (f := fun b => if h : b.length = 32 then pure (⟨b, h⟩ : Digest32)
      else throw unexpectedEof) hblock
  rwa [List.append_nil] at hbind

variable {text : Text} {texts : List Text}

theorem reads_readLpString (hutf8 : IdentityCodec.fromUtf8 text = some text)
    (hlen : text.length < 2 ^ 32) :
    Reads readLpString (writeLpStr text) text := by
  have hbytes : Reads readLpBytes (writeLpStr text) text :=
    (reads_readU32 hlen).bind (reads_readExact unexpectedEof text)
  have hcheck : Reads (checkUtf8 text) [] text := by
    unfold checkUtf8
    rw [hutf8]
    exact reads_pure text
  have hbind := hbytes.bind hcheck
  rwa [List.append_nil] at hbind

theorem reads_readStrList (hutf8 : ∀ text ∈ texts, IdentityCodec.fromUtf8 text = some text)
    (hlen : ∀ text ∈ texts, text.length < 2 ^ 32) (hcount : texts.length < 2 ^ 32) :
    Reads readStrList (writeStrList texts) texts :=
  (reads_readU32 hcount).bind
    (reads_readMany (fun text h => reads_readLpString (hutf8 text h) (hlen text h)))

theorem reads_readStrPairList {pairs : List (Text × Text)}
    (hutf8 : ∀ p ∈ pairs, IdentityCodec.fromUtf8 p.1 = some p.1 ∧
      IdentityCodec.fromUtf8 p.2 = some p.2)
    (hlen : ∀ p ∈ pairs, p.1.length < 2 ^ 32 ∧ p.2.length < 2 ^ 32)
    (hcount : pairs.length < 2 ^ 32) :
    Reads readStrPairList (writeStrPairList pairs) pairs := by
  refine (reads_readU32 hcount).bind (reads_readMany (fun p h => ?_))
  have hfirst := reads_readLpString (hutf8 p h).1 (hlen p h).1
  have hsecond := reads_readLpString (hutf8 p h).2 (hlen p h).2
  exact hfirst.bind (hsecond.map (fun b => (p.1, b)))

theorem reads_readSubjectsBody {subjects : List Digest32} (hcount : subjects.length < 2 ^ 32) :
    Reads readSubjectsBody (writeSubjectsBody subjects) subjects :=
  (reads_readU32 hcount).bind (reads_readMany (fun digest _ => reads_readBytes32 digest))

theorem reads_readDictBody {d : Dictionaries} (ht : d.Typed) (hs : d.Storable) :
    Reads readDictBody (writeDictBody d) { d with subjects := [] } := by
  have hlist : ∀ texts : List Text, (∀ text ∈ texts, text ∈ d.texts) → texts.length < 2 ^ 32 →
      Reads readStrList (writeStrList texts) texts := by
    intro texts hsub hcount
    exact reads_readStrList (fun text h => ht text (hsub text h))
      (fun text h => hs.texts text (hsub text h))
      hcount
  have hpairs : ∀ p ∈ d.artifacts, p.1 ∈ d.texts ∧ p.2 ∈ d.texts := by
    intro p hp
    have hfirst : p.1 ∈ d.artifacts.flatMap (fun p => [p.1, p.2]) :=
      List.mem_flatMap.mpr ⟨p, hp, by simp⟩
    have hsecond : p.2 ∈ d.artifacts.flatMap (fun p => [p.1, p.2]) :=
      List.mem_flatMap.mpr ⟨p, hp, by simp⟩
    simp only [Dictionaries.texts, List.mem_append, hfirst, hsecond, or_true, true_or, and_self]
  have hartifacts : Reads readStrPairList (writeStrPairList d.artifacts) d.artifacts :=
    reads_readStrPairList (fun p h => ⟨ht _ (hpairs p h).1, ht _ (hpairs p h).2⟩)
      (fun p h => ⟨hs.texts _ (hpairs p h).1, hs.texts _ (hpairs p h).2⟩) hs.artifacts
  have hkinds := hlist d.kinds (fun t h => by simp [Dictionaries.texts, h]) hs.kinds
  have huniversal :=
    hlist d.universalKinds (fun t h => by simp [Dictionaries.texts, h]) hs.universalKinds
  have hrelation :=
    hlist d.relationKinds (fun t h => by simp [Dictionaries.texts, h]) hs.relationKinds
  have hnames := hlist d.names (fun t h => by simp [Dictionaries.texts, h]) hs.names
  have hfacets := hlist d.facetNames (fun t h => by simp [Dictionaries.texts, h]) hs.facetNames
  have hsubject := hlist d.subjectText (fun t h => by simp [Dictionaries.texts, h]) hs.subjectText
  have hpaths := hlist d.artifactPaths (fun t h => by simp [Dictionaries.texts, h]) hs.artifactPaths
  have hentity := hlist d.entityKinds (fun t h => by simp [Dictionaries.texts, h]) hs.entityKinds
  unfold writeDictBody
  simp only [List.append_assoc]
  exact hkinds.bind (huniversal.bind (hrelation.bind (hnames.bind (hartifacts.bind
    ((hfacets.orDefault []).bind ((hsubject.orDefault []).bind ((hpaths.orDefault []).bind
      ((hentity.orDefault []).map _))))))))

end RoundTrip

end StructuralStore
