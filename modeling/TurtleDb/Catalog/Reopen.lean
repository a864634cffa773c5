import TurtleDb.Catalog.Persistence

/-!
# Opening and closing a catalog

A catalog that is opened and closed again should leave its files as they were. The destructor writes
whatever the constructor has loaded, so it does in few cases only, and `Steady` lists them.
-/

set_option linter.dupNamespace false

namespace TurtleDb.Catalog

open TurtleDb.Lib

/-- The constructor and the destructor. A constructor that throws leaves nothing to destroy. -/
def openClose (limit : StringLimit) (clock : Clock) (garbage : Nat → Nat) (it : Iteration)
    (fs : FileSystem) (catalogFilePath dbDir : Bytes) : Except Fault FileSystem :=
  match Catalog.load limit clock garbage fs catalogFilePath dbDir with
  | .error _ => .ok fs
  | .ok c => c.flush it fs

/-! ## What should be kept -/

/-- The same fields, all but the time of the last update. -/
structure SameMetadata (f f' : MetadataFile) : Prop where
  dbName : f'.dbName = f.dbName
  metaFilePath : f'.metaFilePath = f.metaFilePath
  dbFilePath : f'.dbFilePath = f.dbFilePath
  createdAt : f'.createdAt = f.createdAt
  namespaces : f'.namespaces.Perm f.namespaces

/-- A file that is rejected stays, and one that is accepted says the same. -/
structure KeptMetadata (before after : Option Bytes) : Prop where
  accepted : ∀ f, DecodesMetadata before f → ∃ f', DecodesMetadata after f' ∧ SameMetadata f f'
  rejected : (∀ f, ¬ DecodesMetadata before f) → after = before

structure KeptCatalog (before after : Option Bytes) : Prop where
  accepted : ∀ es, DecodesCatalog before es → ∃ es', DecodesCatalog after es' ∧ es'.Perm es
  rejected : (∀ es, ¬ DecodesCatalog before es) → after = before

/-- The catalog file is kept, and so are the metadata files that it names. -/
structure Kept (catalogFilePath : Bytes) (fs fs' : FileSystem) : Prop where
  catalog : KeptCatalog (fs.content catalogFilePath) (fs'.content catalogFilePath)
  metadata : ∀ es, DecodesCatalog (fs.content catalogFilePath) es → ∀ e ∈ es,
    KeptMetadata (fs.content e.metaFilePath) (fs'.content e.metaFilePath)

theorem Kept.refl (path : Bytes) (fs : FileSystem) : Kept path fs fs :=
  ⟨⟨fun es h => ⟨es, h, .refl _⟩, fun _ => rfl⟩,
    fun _ _ _ _ => ⟨fun f h => ⟨f, h, ⟨rfl, rfl, rfl, rfl, .refl _⟩⟩, fun _ => rfl⟩⟩

/-! ## When it is -/

/-- Of `m` strings to read, one behind complete strings has a length beyond the limit. -/
inductive StopsAt (limit : StringLimit) : Nat → Bytes → Prop where
  | here {m len : Nat} {tail : Bytes} (hlen : len < 256 ^ 8) (h : limit.val < len) :
      StopsAt limit (m + 1) (leBytes 8 len ++ tail)
  | later {m : Nat} {s tail : Bytes} (hs : s.length ≤ limit.val) (h : StopsAt limit m tail) :
      StopsAt limit (m + 1) (writeString s ++ tail)

/-- The constructor throws on this file: it has the right magic number and version, but the count
of databases is cut off, or a string cannot be allocated. -/
def Throws (limit : StringLimit) (content : Bytes) : Prop :=
  ∃ rest, content = leBytes 4 magicNumber ++ (leBytes 4 databaseVersion ++ rest) ∧
    (rest.length < 4 ∨
      ∃ n tail, n < 256 ^ 4 ∧ rest = leBytes 4 n ++ tail ∧ StopsAt limit (3 * n) tail)

/-- The metadata file of entry `e` says what the catalog says, names every namespace once and counts
no tables, and was created when the clock says that the `i`-th `Metadata` is made. -/
structure Matches (limit : StringLimit) (clock : Clock) (fs : FileSystem) (i : Nat)
    (e : CatalogEntry) (f : MetadataFile) : Prop where
  decodes : DecodesMetadata (fs.content e.metaFilePath) f
  dbName : f.dbName = e.dbName
  dbFilePath : f.dbFilePath = e.dbFilePath
  metaFilePath : f.metaFilePath = e.metaFilePath
  createdAt : f.createdAt = clock.created i
  nodup : (f.namespaces.map Prod.fst).Nodup
  namespaces : ∀ n ∈ f.namespaces, n.1.length ≤ limit.val ∧ n.2 = 0

/-- The files that opening and closing keeps. -/
def Steady (limit : StringLimit) (clock : Clock) (fs : FileSystem) (catalogFilePath : Bytes) : Prop :=
  fs.writable catalogFilePath = false ∨
    (∃ content, fs.content catalogFilePath = some content ∧ Throws limit content) ∨
    ∃ es, DecodesCatalog (fs.content catalogFilePath) es ∧ (es.map CatalogEntry.dbName).Nodup ∧
      ∀ (i : Nat) e, es[i]? = some e →
        fs.writable e.metaFilePath = true ∧ ∃ f, Matches limit clock fs i e f

/-- The catalog file and the metadata files that it names are different files. -/
def DistinctFiles (fs : FileSystem) (catalogFilePath : Bytes) : Prop :=
  ∀ es, DecodesCatalog (fs.content catalogFilePath) es →
    (es.map CatalogEntry.metaFilePath).Nodup ∧ ∀ e ∈ es, e.metaFilePath ≠ catalogFilePath

/-! ## Reading strings -/

variable {limit : StringLimit} {clock : Clock} {garbage : Nat → Nat} {it : Iteration}
  {fs : FileSystem} {path dir : Bytes}

theorem readWord_of_good {content : Bytes} {k old v : Nat} {r : ByteReader}
    (h : (ByteReader.ofBytes content).readWord k old = (v, r)) (hgood : r.good = true) :
    v < 256 ^ k ∧ ∃ tail, content = leBytes k v ++ tail ∧ r = ByteReader.ofBytes tail := by
  simp only [ByteReader.readWord, ByteReader.read, ByteReader.ofBytes, if_true, length_leBytes,
    Prod.mk.injEq] at h
  obtain ⟨rfl, rfl⟩ := h
  have hle : k ≤ content.length := by simpa using hgood
  have htake : (content.take k).length = k := by simp [hle]
  have hdrop : (leBytes k old).drop (content.take k).length = [] := by
    rw [htake]
    exact List.drop_of_length_le (by simp)
  rw [hdrop, List.append_nil]
  constructor
  · have := leNat_lt (content.take k)
    rwa [htake] at this
  · refine ⟨content.drop k, ?_, ?_⟩
    · have hword := leBytes_leNat (content.take k)
      rw [htake] at hword
      rw [hword, List.take_append_drop]
    · simp [ByteReader.ofBytes, hle]

theorem readWord_lt (r : ByteReader) (k old : Nat) : (r.readWord k old).1 < 256 ^ k := by
  have hlen : (r.read (leBytes k old)).1.length = k := by
    unfold ByteReader.read
    split
    · simp only [List.length_append, List.length_drop, List.length_take, length_leBytes]
      omega
    · simp
  have := leNat_lt (r.read (leBytes k old)).1
  rwa [hlen] at this

theorem readString_bad {r : ByteReader} (h : r.good = false) :
    readString limit r = .ok ([], r) := by
  simp [readString, ByteReader.readWord, ByteReader.read, h]

theorem readString_long {len : Nat} (hlen : len < 256 ^ 8) (h : limit.val < len) (tail : Bytes) :
    ∃ e, readString limit (ByteReader.ofBytes (leBytes 8 len ++ tail)) = .error e := by
  rw [readString, ByteReader.readWord_append hlen]
  simp [h]

theorem length_read (r : ByteReader) (old : Bytes) : (r.read old).1.length = old.length := by
  unfold ByteReader.read
  split
  · simp only [List.length_append, List.length_drop, List.length_take]
    omega
  · rfl

theorem readString_length {r r' : ByteReader} {s : Bytes} (h : readString limit r = .ok (s, r')) :
    s.length ≤ limit.val := by
  unfold readString at h
  simp only at h
  split at h
  · cases h
    exact Nat.zero_le _
  · split at h
    · cases h
    · have hs := congrArg (fun p => p.1.length) (Except.ok.inj h)
      simp only [length_read, List.length_replicate] at hs
      omega

/-- A string is read in whole, or is too long, or fails the stream. -/
theorem readString_cases (limit : StringLimit) (content : Bytes) :
    (∃ len tail, len < 256 ^ 8 ∧ limit.val < len ∧ content = leBytes 8 len ++ tail) ∨
    (∃ s tail, s.length ≤ limit.val ∧ content = writeString s ++ tail) ∨
    ∃ s r, readString limit (ByteReader.ofBytes content) = .ok (s, r) ∧ r.good = false := by
  cases hr : (ByteReader.ofBytes content).readWord 8 0 with
  | mk len r =>
      cases hgood : r.good with
      | false => exact .inr (.inr ⟨[], r, by simp [readString, hr, hgood], hgood⟩)
      | true =>
          obtain ⟨hlt, tail, rfl, rfl⟩ := readWord_of_good hr hgood
          by_cases hlimit : limit.val < len
          · exact .inl ⟨len, tail, hlt, hlimit, rfl⟩
          · by_cases hlen : len ≤ tail.length
            · refine .inr (.inl ⟨tail.take len, tail.drop len, by simp; omega, ?_⟩)
              rw [writeString, List.append_assoc, List.take_append_drop, List.length_take,
                Nat.min_eq_left hlen]
            · refine .inr (.inr ⟨_, _, by rw [readString, hr]; simp [hlimit]; rfl, ?_⟩)
              simp [ByteReader.ofBytes, hlen]

/-- `m` strings one after the other. -/
def readStrings (limit : StringLimit) : Nat → ByteReader → Except Fault (List Bytes × ByteReader)
  | 0, r => .ok ([], r)
  | m + 1, r => do
      let (s, r) ← readString limit r
      let (ss, r) ← readStrings limit m r
      return (s :: ss, r)

theorem StopsAt.readStrings {m : Nat} {content : Bytes} (h : StopsAt limit m content) :
    ∃ e, readStrings limit m (ByteReader.ofBytes content) = .error e := by
  induction h with
  | @here m len tail hlen h =>
      obtain ⟨e, he⟩ := readString_long hlen h tail
      exact ⟨e, by simp only [Catalog.readStrings, he, error_bind]⟩
  | @later m s tail hs _ ih =>
      obtain ⟨e, he⟩ := ih
      exact ⟨e, by simp only [Catalog.readStrings, readString_writeString hs, ok_bind, he,
        error_bind]⟩

theorem readStrings_bad (limit : StringLimit) {r : ByteReader} (h : r.good = false) (m : Nat) :
    ∃ ss, readStrings limit m r = .ok (ss, r) ∧ ss.length = m ∧ ∀ s ∈ ss, s.length ≤ limit.val := by
  induction m with
  | zero => exact ⟨[], rfl, rfl, by simp⟩
  | succ m ih =>
      obtain ⟨ss, hss, hlen, hle⟩ := ih
      refine ⟨[] :: ss, ?_, by simp [hlen], ?_⟩
      · simp only [readStrings, readString_bad h, ok_bind, hss]
        rfl
      · intro s hs
        rcases List.mem_cons.mp hs with rfl | hs
        · exact Nat.zero_le _
        · exact hle s hs

theorem readStrings_cases (limit : StringLimit) (m : Nat) (content : Bytes) :
    StopsAt limit m content ∨
      ∃ ss r, readStrings limit m (ByteReader.ofBytes content) = .ok (ss, r) ∧ ss.length = m ∧
        ∀ s ∈ ss, s.length ≤ limit.val := by
  induction m generalizing content with
  | zero => exact .inr ⟨[], _, rfl, rfl, by simp⟩
  | succ m ih =>
      rcases readString_cases limit content with ⟨len, tail, hlen, hlimit, rfl⟩ |
        ⟨s, tail, hs, rfl⟩ | ⟨s, r, hread, hbad⟩
      · exact .inl (.here hlen hlimit)
      · rcases ih tail with hstop | ⟨ss, r, hss, hlen, hle⟩
        · exact .inl (.later hs hstop)
        · refine .inr ⟨s :: ss, r, ?_, by simp [hlen], by simpa [hs] using hle⟩
          simp only [readStrings, readString_writeString hs, ok_bind, hss]
          rfl
      · obtain ⟨ss, hss, hlen, hle⟩ := readStrings_bad limit hbad m
        refine .inr ⟨s :: ss, r, ?_, by simp [hlen], ?_⟩
        · simp only [readStrings, hread, ok_bind, hss]
          rfl
        · intro t ht
          rcases List.mem_cons.mp ht with rfl | ht
          · exact readString_length hread
          · exact hle t ht

/-- Complete strings are read, unless one is too long. -/
theorem readStrings_complete (limit : StringLimit) {ss : List Bytes}
    (hvalid : ∀ s ∈ ss, s.length < 256 ^ 8) (tail : Bytes) :
    StopsAt limit ss.length ((ss.map writeString).flatten ++ tail) ∨
      ((∀ s ∈ ss, s.length ≤ limit.val) ∧
        readStrings limit ss.length (ByteReader.ofBytes ((ss.map writeString).flatten ++ tail)) =
          .ok (ss, ByteReader.ofBytes tail)) := by
  induction ss with
  | nil => exact .inr ⟨by simp, rfl⟩
  | cons s ss ih =>
      simp only [List.map_cons, List.flatten_cons, List.append_assoc, List.length_cons]
      by_cases hs : s.length ≤ limit.val
      · rcases ih fun t ht => hvalid t (List.mem_cons_of_mem _ ht) with hstop | ⟨hle, hread⟩
        · exact .inl (.later hs hstop)
        · refine .inr ⟨by simpa [hs] using hle, ?_⟩
          simp only [readStrings, readString_writeString hs, ok_bind, hread]
          rfl
      · refine .inl ?_
        rw [writeString, List.append_assoc]
        exact .here (hvalid s List.mem_cons_self) (by omega)

/-! ## Loading entry by entry -/

/-- The entries that a list of strings makes up. -/
def entriesOf : List Bytes → List CatalogEntry
  | dbName :: dbFilePath :: metaFilePath :: rest =>
      { dbName, dbFilePath, metaFilePath } :: entriesOf rest
  | _ => []

/-- The `i`-th database of a catalog file, as it is loaded. -/
def loadedDatabase (limit : StringLimit) (clock : Clock) (garbage : Nat → Nat) (fs : FileSystem)
    (i : Nat) (e : CatalogEntry) : Database :=
  (loadDatabaseMetadata limit (clock.touched i) (garbage i) e.metaFilePath
    (fs.content e.metaFilePath)
    (Database.make (Metadata.make e.dbName e.dbFilePath e.metaFilePath (clock.created i)))).1

def emplaceAll (limit : StringLimit) (clock : Clock) (garbage : Nat → Nat) (fs : FileSystem) :
    Nat → List CatalogEntry → (AList fun _ : Bytes => Database) → AList fun _ : Bytes => Database
  | _, [], databases => databases
  | i, e :: es, databases =>
      emplaceAll limit clock garbage fs (i + 1) es
        (match databases.lookup e.dbName with
        | some _ => databases
        | none => databases.insert e.dbName (loadedDatabase limit clock garbage fs i e))

/-- The catalog that the entries `es` make up. -/
def loadedCatalog (limit : StringLimit) (clock : Clock) (garbage : Nat → Nat) (fs : FileSystem)
    (path dir : Bytes) (es : List CatalogEntry) : Catalog :=
  { catalogFilePath := path, dbDir := dir, databases := emplaceAll limit clock garbage fs 0 es ∅ }

/-- Nothing that is loaded changes what is read of the catalog file. -/
theorem loadDatabases_eq (k i : Nat) (r : ByteReader) (databases : AList fun _ : Bytes => Database) :
    loadDatabases limit clock garbage fs k i r databases = (do
      let (ss, _) ← readStrings limit (3 * k) r
      return emplaceAll limit clock garbage fs i (entriesOf ss) databases) := by
  induction k generalizing i r databases with
  | zero => rfl
  | succ k ih =>
      have hthree : 3 * (k + 1) = 3 * k + 1 + 1 + 1 := rfl
      rw [loadDatabases, hthree]
      simp only [readStrings, bind_assoc]
      cases hname : readString limit r with
      | error e => simp only [error_bind]
      | ok p =>
          simp only [ok_bind]
          cases hdb : readString limit p.2 with
          | error e => simp only [error_bind]
          | ok q =>
              simp only [ok_bind]
              cases hmeta : readString limit q.2 with
              | error e => simp only [error_bind]
              | ok t =>
                  simp only [ok_bind, ih]
                  cases readStrings limit (3 * k) t.2 with
                  | error e => rfl
                  | ok u => rfl

theorem map_entriesOf (es : List CatalogEntry) :
    ∃ ss : List Bytes, ss.length = 3 * es.length ∧ entriesOf ss = es ∧
      (es.map CatalogEntry.encode).flatten = (ss.map writeString).flatten ∧
      ∀ s, s ∈ ss ↔ ∃ e ∈ es, s = e.dbName ∨ s = e.dbFilePath ∨ s = e.metaFilePath := by
  induction es with
  | nil => exact ⟨[], rfl, rfl, rfl, by simp⟩
  | cons e es ih =>
      obtain ⟨ss, hlen, heq, hbytes, hmem⟩ := ih
      refine ⟨e.dbName :: e.dbFilePath :: e.metaFilePath :: ss, ?_, ?_, ?_, ?_⟩
      · simp only [List.length_cons, hlen]
        omega
      · rw [entriesOf, heq]
      · simp only [List.map_cons, List.flatten_cons, CatalogEntry.encode, hbytes,
          List.append_assoc]
      · intro s
        simp only [List.mem_cons, hmem, exists_eq_or_imp]
        grind

/-- Every string of an entry fits the limit. -/
structure CatalogEntry.Fits (limit : StringLimit) (e : CatalogEntry) : Prop where
  dbName : e.dbName.length ≤ limit.val
  dbFilePath : e.dbFilePath.length ≤ limit.val
  metaFilePath : e.metaFilePath.length ≤ limit.val

theorem entriesOf_fits {ss : List Bytes} (h : ∀ s ∈ ss, s.length ≤ limit.val) :
    (∀ e ∈ entriesOf ss, e.Fits limit) ∧ 3 * (entriesOf ss).length ≤ ss.length := by
  induction ss using entriesOf.induct with
  | case1 dbName dbFilePath metaFilePath rest ih =>
      obtain ⟨hfits, hlen⟩ := ih fun s hs => h s (by simp [hs])
      rw [entriesOf]
      constructor
      · intro e he
        rcases List.mem_cons.mp he with rfl | he
        · exact ⟨h _ (by simp), h _ (by simp), h _ (by simp)⟩
        · exact hfits e he
      · simp only [List.length_cons]
        omega
  | case2 ss hss =>
      rw [entriesOf]
      · simp
      · exact hss

/-! ## The constructor -/

theorem magicNumber_lt : magicNumber < 256 ^ 4 := by decide

theorem databaseVersion_lt : databaseVersion < 256 ^ 4 := by decide

/-- Behind the header, a catalog file is a count and three strings for each database. -/
theorem load_eq {content rest : Bytes} {n : Nat} (hn : n < 256 ^ 4)
    (hcontent : fs.content path = some content)
    (heq : content = leBytes 4 magicNumber ++ (leBytes 4 databaseVersion ++ (leBytes 4 n ++ rest))) :
    Catalog.load limit clock garbage fs path dir = (do
      let (ss, _) ← readStrings limit (3 * n) (ByteReader.ofBytes rest)
      return { catalogFilePath := path, dbDir := dir,
               databases := emplaceAll limit clock garbage fs 0 (entriesOf ss) ∅ }) := by
  subst heq
  simp only [Catalog.load, hcontent, ByteReader.readWord_append magicNumber_lt,
    ByteReader.readWord_append databaseVersion_lt, ByteReader.readWord_append hn,
    ByteReader.good_ofBytes, Bool.not_true, ne_eq, not_true_eq_false, decide_false, Bool.or_self,
    Bool.false_eq_true, if_false, loadDatabases_eq, bind_assoc]
  cases readStrings limit (3 * n) (ByteReader.ofBytes rest) with
  | error e => rfl
  | ok p => rfl

theorem readWord_short {content : Bytes} {k : Nat} (h : content.length < k) (old : Nat) :
    ((ByteReader.ofBytes content).readWord k old).2.good = false := by
  simp [ByteReader.readWord, ByteReader.read, ByteReader.ofBytes, h]

theorem Throws.load (clock : Clock) (garbage : Nat → Nat) (dir : Bytes) {content : Bytes}
    (h : Throws limit content)
    (hcontent : fs.content path = some content) :
    ∃ e, Catalog.load limit clock garbage fs path dir = .error e := by
  obtain ⟨rest, rfl, hrest⟩ := h
  rcases hrest with hshort | ⟨n, tail, hn, rfl, hstop⟩
  · refine ⟨.raised "Failed to read database count from catalog.", ?_⟩
    simp only [Catalog.load, hcontent, ByteReader.readWord_append magicNumber_lt,
      ByteReader.readWord_append databaseVersion_lt, ByteReader.good_ofBytes, Bool.not_true, ne_eq,
      not_true_eq_false, decide_false, Bool.or_self, Bool.false_eq_true, if_false,
      readWord_short hshort, Bool.not_false, if_true]
  · obtain ⟨e, he⟩ := hstop.readStrings
    exact ⟨e, by rw [load_eq hn hcontent rfl, he]; rfl⟩

/-- A file that decodes is loaded entry by entry, unless the constructor throws. -/
theorem load_decodes (clock : Clock) (garbage : Nat → Nat) (dir : Bytes) {es : List CatalogEntry}
    (h : DecodesCatalog (fs.content path) es) :
    (∃ content, fs.content path = some content ∧ Throws limit content) ∨
      ((∀ e ∈ es, e.Fits limit) ∧ Catalog.load limit clock garbage fs path dir =
        .ok (loadedCatalog limit clock garbage fs path dir es)) := by
  obtain ⟨hlen, hvalid, tail, hcontent⟩ := h
  obtain ⟨ss, hsslen, hentries, hbytes, hmem⟩ := map_entriesOf es
  have heq : encodeEntries es ++ tail = leBytes 4 magicNumber ++ (leBytes 4 databaseVersion ++
      (leBytes 4 es.length ++ ((ss.map writeString).flatten ++ tail))) := by
    rw [encodeEntries, hbytes]
    simp only [List.append_assoc]
  have hss : ∀ s ∈ ss, s.length < 256 ^ 8 := by
    intro s hs
    obtain ⟨e, he, rfl | rfl | rfl⟩ := (hmem s).mp hs
    · exact (hvalid e he).dbName
    · exact (hvalid e he).dbFilePath
    · exact (hvalid e he).metaFilePath
  rcases readStrings_complete limit hss tail with hstop | ⟨hle, hread⟩
  · rw [hsslen] at hstop
    exact .inl ⟨_, hcontent, _, heq, .inr ⟨es.length, _, hlen, rfl, hstop⟩⟩
  · rw [hsslen] at hread
    refine .inr ⟨fun e he => ⟨hle _ ((hmem _).mpr ⟨e, he, .inl rfl⟩),
      hle _ ((hmem _).mpr ⟨e, he, .inr (.inl rfl)⟩),
      hle _ ((hmem _).mpr ⟨e, he, .inr (.inr rfl)⟩)⟩, ?_⟩
    rw [load_eq hlen hcontent heq, hread, ← hentries]
    rfl

theorem load_rejected {content : Bytes} (hcontent : fs.content path = some content)
    (h : ¬ ∃ rest, content = leBytes 4 magicNumber ++ (leBytes 4 databaseVersion ++ rest)) :
    Catalog.load limit clock garbage fs path dir = .ok (Catalog.empty path dir) := by
  rw [Catalog.load, hcontent]
  simp only
  cases hmagic : (ByteReader.ofBytes content).readWord 4 0 with
  | mk magic r =>
      simp only
      split
      next => rfl
      next hm =>
          simp only [Bool.or_eq_true, Bool.not_eq_true', decide_eq_true_eq, not_or, not_not,
            Bool.not_eq_false] at hm
          obtain ⟨-, rest, hcontent', rfl⟩ := readWord_of_good hmagic hm.1
          cases hversion : (ByteReader.ofBytes rest).readWord 4 0 with
          | mk version r =>
              simp only
              split
              next => rfl
              next hv =>
                  simp only [Bool.or_eq_true, Bool.not_eq_true', decide_eq_true_eq, not_or,
                    not_not, Bool.not_eq_false] at hv
                  obtain ⟨-, rest', rfl, rfl⟩ := readWord_of_good hversion hv.1
                  rw [hm.2, hv.2] at hcontent'
                  exact absurd ⟨rest', hcontent'⟩ h

/-- Whatever the file is, the constructor throws or has loaded some entries that fit. -/
theorem load_cases (limit : StringLimit) (clock : Clock) (garbage : Nat → Nat) (fs : FileSystem)
    (path dir : Bytes) :
    (∃ content, fs.content path = some content ∧ Throws limit content) ∨
      ∃ es : List CatalogEntry, (∀ e ∈ es, e.Fits limit) ∧ es.length < 256 ^ 4 ∧
        Catalog.load limit clock garbage fs path dir =
          .ok (loadedCatalog limit clock garbage fs path dir es) := by
  cases hcontent : fs.content path with
  | none => exact .inr ⟨[], by simp, by simp, by rw [Catalog.load, hcontent]; rfl⟩
  | some content =>
      by_cases h : ∃ rest, content = leBytes 4 magicNumber ++ (leBytes 4 databaseVersion ++ rest)
      · obtain ⟨rest, heq⟩ := h
        by_cases hshort : rest.length < 4
        · exact .inl ⟨content, rfl, rest, heq, .inl hshort⟩
        · have htake : (rest.take 4).length = 4 := by simp; omega
          have hn := leNat_lt (rest.take 4)
          have hword := leBytes_leNat (rest.take 4)
          rw [htake] at hn hword
          have hrest : rest = leBytes 4 (leNat (rest.take 4)) ++ rest.drop 4 := by
            rw [hword, List.take_append_drop]
          rcases readStrings_cases limit (3 * leNat (rest.take 4)) (rest.drop 4) with
            hstop | ⟨ss, r, hread, hlen, hle⟩
          · exact .inl ⟨content, rfl, rest, heq, .inr ⟨_, _, hn, hrest, hstop⟩⟩
          · obtain ⟨hfits, hthree⟩ := entriesOf_fits hle
            refine .inr ⟨entriesOf ss, hfits, by omega, ?_⟩
            rw [hrest] at heq
            rw [load_eq hn hcontent heq, hread]
            rfl
      · exact .inr ⟨[], by simp, by simp, load_rejected hcontent h⟩

/-! ## What is loaded -/

theorem loadNamespaces_extends (limit : StringLimit) (touched : Nat → UInt64) (k i : Nat)
    (r : ByteReader) (db : Database) :
    ∃ names, Extends db (loadNamespaces limit touched k i r db).1 names ∧
      (∀ name ∈ names, name.length ≤ limit.val) ∧ names.length ≤ k := by
  induction k generalizing i r db with
  | zero => exact ⟨[], Extends.refl db, by simp, Nat.le_refl 0⟩
  | succ k ih =>
      rw [loadNamespaces]
      cases hread : readString limit r with
      | error e => exact ⟨[], Extends.refl db, by simp, Nat.zero_le _⟩
      | ok p =>
          obtain ⟨names, hext, hle, hlen⟩ :=
            ih (i + 1) (p.2.readWord 4 0).2 (db.createNamespace p.1 (touched i))
          refine ⟨p.1 :: names, (createNamespace_extends db p.1 (touched i)).trans hext, ?_, ?_⟩
          · intro name hname
            rcases List.mem_cons.mp hname with rfl | hname
            · exact readString_length hread
            · exact hle name hname
          · simp only [List.length_cons]
            omega

/-- Whatever the metadata file is, the database gets no more namespaces than a count can say. -/
theorem loadDatabaseMetadata_extends (limit : StringLimit) (touched : Nat → UInt64) (garbage : Nat)
    (metaFile : Bytes) (content : Option Bytes) (db : Database) :
    ∃ names, Extends db (loadDatabaseMetadata limit touched garbage metaFile content db).1 names ∧
      (∀ name ∈ names, name.length ≤ limit.val) ∧ names.length < 256 ^ 4 := by
  have hnothing : ∃ names, Extends db db names ∧ (∀ name ∈ names, name.length ≤ limit.val) ∧
      names.length < 256 ^ 4 := ⟨[], Extends.refl db, by simp, by simp⟩
  unfold loadDatabaseMetadata
  cases content with
  | none => exact hnothing
  | some content =>
      cases hheader : readHeader limit garbage metaFile content with
      | error e => simpa only [hheader] using hnothing
      | ok p =>
          obtain ⟨header, r⟩ := p
          have hcount : header.namespaceCount < 256 ^ 4 := by
            unfold readHeader at hheader
            simp only at hheader
            split at hheader
            · cases hheader
            · obtain ⟨_, _, hheader⟩ := bind_eq_ok.mp hheader
              obtain ⟨_, _, hheader⟩ := bind_eq_ok.mp hheader
              obtain ⟨_, _, hheader⟩ := bind_eq_ok.mp hheader
              cases hheader
              exact readWord_lt _ _ _
          obtain ⟨names, hext, hle, hlen⟩ := loadNamespaces_extends limit touched
            header.namespaceCount 0 r db
          simp only [hheader]
          cases hload : loadNamespaces limit touched header.namespaceCount 0 r db with
          | mk db' e =>
              rw [hload] at hext
              cases e with
              | some e => exact ⟨names, hext, hle, by omega⟩
              | none => exact ⟨names, { hext with }, hle, by omega⟩

/-- A database as it comes from entry `e` of a catalog file, the `i`-th. -/
structure LoadedFrom (limit : StringLimit) (clock : Clock) (i : Nat) (e : CatalogEntry)
    (db : Database) : Prop where
  sound : Sound limit e.dbName db
  dbFilePath : db.metadata.dbFilePath = e.dbFilePath
  metaFilePath : db.metadata.metaFilePath = e.metaFilePath
  createdAt : db.metadata.createdAt = clock.created i
  tableCount : db.metadata.tableCount = 0
  count : db.namespaces.entries.length < word32

theorem loadedDatabase_from (clock : Clock) (garbage : Nat → Nat) (fs : FileSystem) (i : Nat)
    {e : CatalogEntry} (h : e.Fits limit) :
    LoadedFrom limit clock i e (loadedDatabase limit clock garbage fs i e) := by
  obtain ⟨names, hext, hle, hlen⟩ := loadDatabaseMetadata_extends limit
    (clock.touched i) (garbage i) e.metaFilePath (fs.content e.metaFilePath)
    (Database.make (Metadata.make e.dbName e.dbFilePath e.metaFilePath (clock.created i)))
  have hmem : ∀ name, name ∈ (loadedDatabase limit clock garbage fs i e).namespaces ↔
      name ∈ names := by
    intro name
    rw [loadedDatabase, hext.mem_iff]
    exact or_iff_left (by rintro ⟨⟩)
  refine ⟨⟨hext.dbName, ?_, hext.counted rfl⟩, hext.dbFilePath, hext.metaFilePath, hext.createdAt,
    hext.tableCount, ?_⟩
  · refine hext.fits ⟨h.dbName, h.dbFilePath, h.metaFilePath, ?_⟩ hle
    rintro name ⟨⟩
  · have hsub := (List.subperm_of_subset
      (loadedDatabase limit clock garbage fs i e).namespaces.keys_nodup fun name hname =>
        (hmem name).mp hname).length_le
    rw [AList.keys, List.keys, List.length_map] at hsub
    exact Nat.lt_of_le_of_lt hsub hlen

theorem emplaceAll_from (clock : Clock) (garbage : Nat → Nat) (fs : FileSystem)
    {es : List CatalogEntry} (hfits : ∀ e ∈ es, e.Fits limit) (i : Nat)
    (databases : AList fun _ : Bytes => Database)
    (h : ∀ name db, databases.lookup name = some db →
      ∃ j e, e.dbName = name ∧ LoadedFrom limit clock j e db) :
    (∀ name db, (emplaceAll limit clock garbage fs i es databases).lookup name = some db →
      ∃ j e, e.dbName = name ∧ LoadedFrom limit clock j e db) ∧
      (emplaceAll limit clock garbage fs i es databases).entries.length ≤
        databases.entries.length + es.length := by
  induction es generalizing i databases with
  | nil => exact ⟨h, Nat.le_refl _⟩
  | cons e es ih =>
      rw [emplaceAll]
      have hrest := fun d hd => hfits d (List.mem_cons_of_mem _ hd)
      cases hl : databases.lookup e.dbName with
      | some db =>
          obtain ⟨hfrom, hlen⟩ := ih hrest (i + 1) databases h
          exact ⟨hfrom, by simp only [List.length_cons]; omega⟩
      | none =>
          have hnew : e.dbName ∉ databases := AList.lookup_eq_none.mp hl
          obtain ⟨hfrom, hlen⟩ := ih hrest (i + 1)
            (databases.insert e.dbName (loadedDatabase limit clock garbage fs i e)) (by
              intro name db hname
              by_cases hne : name = e.dbName
              · subst hne
                rw [AList.lookup_insert] at hname
                cases hname
                exact ⟨i, e, rfl, loadedDatabase_from _ _ _ i (hfits e List.mem_cons_self)⟩
              · rw [AList.lookup_insert_ne hne] at hname
                exact h name db hname)
          refine ⟨hfrom, ?_⟩
          rw [AList.entries_insert_of_notMem hnew] at hlen
          simp only [List.length_cons] at hlen ⊢
          omega

/-- Entries with names of their own are all emplaced. -/
theorem lookup_emplaceAll (limit : StringLimit) (clock : Clock) (garbage : Nat → Nat)
    (fs : FileSystem) {es : List CatalogEntry} (hnodup : (es.map CatalogEntry.dbName).Nodup)
    (i : Nat) (databases : AList fun _ : Bytes => Database)
    (hnew : ∀ e ∈ es, e.dbName ∉ databases) :
    (∀ (j : Nat) e, es[j]? = some e →
      (emplaceAll limit clock garbage fs i es databases).lookup e.dbName =
        some (loadedDatabase limit clock garbage fs (i + j) e)) ∧
      ∀ name, name ∉ es.map CatalogEntry.dbName →
        (emplaceAll limit clock garbage fs i es databases).lookup name = databases.lookup name := by
  induction es generalizing i databases with
  | nil => exact ⟨by simp, fun _ _ => rfl⟩
  | cons d es ih =>
      rw [List.map_cons, List.nodup_cons] at hnodup
      have hl : databases.lookup d.dbName = none :=
        AList.lookup_eq_none.mpr (hnew d List.mem_cons_self)
      obtain ⟨hall, hother⟩ := ih hnodup.2 (i + 1)
        (databases.insert d.dbName (loadedDatabase limit clock garbage fs i d)) (by
          intro e he hin
          rcases (AList.mem_insert _).mp hin with heq | hold
          · exact hnodup.1 (List.mem_map.mpr ⟨e, he, heq⟩)
          · exact hnew e (List.mem_cons_of_mem _ he) hold)
      rw [emplaceAll, hl]
      constructor
      · intro j e hj
        cases j with
        | zero =>
            cases hj
            rw [hother d.dbName hnodup.1, AList.lookup_insert]
            rfl
        | succ j =>
            rw [hall j e hj]
            congr 2
            omega
      · intro name hname
        rw [List.map_cons, List.mem_cons, not_or] at hname
        rw [hother name hname.2, AList.lookup_insert_ne hname.1]

/-! ## One metadata file -/

theorem LoadedFrom.decodes (it : Iteration) {i : Nat} {e : CatalogEntry} {db : Database}
    (h : LoadedFrom limit clock i e db) :
    DecodesMetadata (some (encodeMetadata it db)) (db.file it) := by
  refine ⟨Database.file_valid it h.sound.fits h.count, [], ?_⟩
  rw [encodeMetadata_eq it h.sound.counted h.count, List.append_nil]

theorem LoadedFrom.mem_file {i : Nat} {e : CatalogEntry} {db : Database}
    (h : LoadedFrom limit clock i e db) {n : Bytes × Nat} (hn : n ∈ (db.file it).namespaces) :
    n.1.length ≤ limit.val ∧ n.2 = 0 := by
  obtain ⟨hmem, hcount⟩ := Database.mem_file hn
  rw [h.tableCount] at hcount
  exact ⟨h.sound.fits.namespaces _ hmem, hcount⟩

theorem perm_of_names {l m : List (Bytes × Nat)} (hl : ∀ n ∈ l, n.2 = 0) (hm : ∀ n ∈ m, n.2 = 0)
    (h : (l.map Prod.fst).Perm (m.map Prod.fst)) : l.Perm m := by
  have hzero : ∀ k : List (Bytes × Nat), (∀ n ∈ k, n.2 = 0) →
      (k.map Prod.fst).map (fun name => (name, 0)) = k := by
    intro k hk
    rw [List.map_map]
    conv_rhs => rw [← List.map_id k]
    exact List.map_congr_left fun n hn => Prod.ext rfl (hk n hn).symm
  have hperm := h.map fun name => (name, 0)
  rwa [hzero l hl, hzero m hm] at hperm

/-- Writing back what was loaded keeps a metadata file exactly when the file matches its entry. -/
theorem keptMetadata_iff (i : Nat) {e : CatalogEntry} (he : e.Fits limit) :
    KeptMetadata (fs.content e.metaFilePath)
        (some (encodeMetadata it (loadedDatabase limit clock garbage fs i e))) ↔
      ∃ f, Matches limit clock fs i e f := by
  have hfrom := loadedDatabase_from clock garbage fs i he
  generalize hdb : loadedDatabase limit clock garbage fs i e = db at hfrom
  have hafter := hfrom.decodes it
  have hnames := @Database.file_names it db
  constructor
  · intro h
    by_cases hbefore : ∃ f, DecodesMetadata (fs.content e.metaFilePath) f
    · obtain ⟨f, hf⟩ := hbefore
      obtain ⟨f', hf', hsame⟩ := h.accepted f hf
      obtain rfl := hf'.unique hafter
      refine ⟨f, hf, ?_, ?_, ?_, ?_, ?_, ?_⟩
      · exact hsame.dbName.symm.trans hfrom.sound.name
      · exact hsame.dbFilePath.symm.trans hfrom.dbFilePath
      · exact hsame.metaFilePath.symm.trans hfrom.metaFilePath
      · exact hsame.createdAt.symm.trans hfrom.createdAt
      · rw [← (hsame.namespaces.map Prod.fst).nodup_iff, hnames.nodup_iff]
        exact db.namespaces.keys_nodup
      · intro n hn
        exact hfrom.mem_file (hsame.namespaces.mem_iff.mpr hn)
    · have heq := h.rejected fun f hf => hbefore ⟨f, hf⟩
      rw [heq] at hafter
      exact absurd ⟨_, hafter⟩ hbefore
  · rintro ⟨f, hf⟩
    obtain ⟨hvalid, tail, hcontent⟩ := hf.decodes
    have hfits : f.Fits limit := ⟨hf.dbName ▸ he.dbName, hf.metaFilePath ▸ he.metaFilePath,
      hf.dbFilePath ▸ he.dbFilePath, fun n hn => (hf.namespaces n hn).1⟩
    obtain ⟨db', hload, hext⟩ := loadDatabaseMetadata_encode hvalid hfits (clock.touched i)
      (garbage i) e.metaFilePath tail
      (Database.make (Metadata.make e.dbName e.dbFilePath e.metaFilePath (clock.created i)))
    rw [loadedDatabase, hcontent, hload] at hdb
    subst hdb
    refine ⟨?_, fun h => absurd hf.decodes (h f)⟩
    intro f' hf'
    obtain rfl := hf'.unique hf.decodes
    refine ⟨_, hafter, ⟨?_, ?_, ?_, ?_, ?_⟩⟩
    · exact hfrom.sound.name.trans hf.dbName.symm
    · exact hfrom.metaFilePath.trans hf.metaFilePath.symm
    · exact hfrom.dbFilePath.trans hf.dbFilePath.symm
    · exact hfrom.createdAt.trans hf.createdAt.symm
    · refine perm_of_names (fun n hn => (hfrom.mem_file hn).2) (fun n hn => (hf.namespaces n hn).2)
        (hnames.trans ?_)
      rw [List.perm_ext_iff_of_nodup (AList.keys_nodup _) hf.nodup]
      intro name
      exact (hext.mem_iff name).trans (or_iff_left (by rintro ⟨⟩))

/-! ## The destructor -/

/-- What the catalog file says of a database. -/
def Entry.toFile (d : Entry) : CatalogEntry :=
  { dbName := d.1, dbFilePath := d.2.metadata.dbFilePath, metaFilePath := d.2.metadata.metaFilePath }

theorem save_all_writable {entries : List Entry} {fs' : FileSystem}
    (h : entries.foldlM (fun fs e => saveDatabaseMetadata it fs e.2) fs = .ok fs') :
    ∀ e ∈ entries, fs.writable e.2.metadata.metaFilePath = true := by
  induction entries generalizing fs with
  | nil => simp
  | cons d entries ih =>
      rw [List.foldlM_cons] at h
      obtain ⟨fs₁, hsave, hrest⟩ := bind_eq_ok.mp h
      unfold saveDatabaseMetadata at hsave
      split at hsave
      · cases hsave
      · next hw =>
          cases hsave
          intro e he
          rcases List.mem_cons.mp he with rfl | he
          · simpa using hw
          · exact ih hrest e he

/-- The databases of a catalog that has been loaded. -/
structure AllLoaded (limit : StringLimit) (clock : Clock) (c : Catalog) : Prop where
  loaded : ∀ name db, c.databases.lookup name = some db →
    ∃ i e, e.dbName = name ∧ LoadedFrom limit clock i e db
  count : c.databases.entries.length < word32

theorem AllLoaded.decodes (it : Iteration) {c : Catalog} (h : AllLoaded limit clock c) :
    DecodesCatalog (some (encodeCatalog (it.order c.databases.entries)))
      ((it.order c.databases.entries).map Entry.toFile) := by
  have hlen : (it.order c.databases.entries).length < word32 := by
    rw [(it.perm _).length_eq]
    exact h.count
  refine ⟨by rwa [List.length_map], ?_, [], ?_⟩
  · intro e he
    obtain ⟨d, hd, rfl⟩ := List.mem_map.mp he
    obtain ⟨i, e, hname, hfrom⟩ := h.loaded d.1 d.2 (Catalog.mem_order.mp hd)
    have hlt : ∀ {k : Nat}, k ≤ limit.val → k < 256 ^ 8 :=
      fun hk => Nat.lt_of_le_of_lt hk limit.lt
    have hsound := hfrom.sound
    rw [hname] at hsound
    have hdbName := hsound.fits.dbName
    rw [hsound.name] at hdbName
    exact ⟨hlt hdbName, hlt hsound.fits.dbFilePath, hlt hsound.fits.metaFilePath⟩
  · rw [List.append_nil, encodeCatalog, encodeEntries, trunc32_of_lt hlen, List.length_map,
      List.map_map]
    rfl

theorem flush_writable {c : Catalog} {fs' : FileSystem} (hw : fs.writable c.catalogFilePath = true)
    (h : c.flush it fs = .ok fs') :
    fs'.content c.catalogFilePath = some (encodeCatalog (it.order c.databases.entries)) ∧
      ∀ e ∈ it.order c.databases.entries, fs.writable e.2.metadata.metaFilePath = true := by
  rw [Catalog.flush, hw] at h
  obtain ⟨fs₁, hsave, hrest⟩ := bind_eq_ok.mp h
  cases hrest
  exact ⟨Function.update_self .., save_all_writable hsave⟩

theorem flush_distinct {c : Catalog} (hw : fs.writable c.catalogFilePath = true)
    (hnodup : ((it.order c.databases.entries).map fun e => e.2.metadata.metaFilePath).Nodup)
    (hne : ∀ e ∈ it.order c.databases.entries, e.2.metadata.metaFilePath ≠ c.catalogFilePath)
    (hw' : ∀ e ∈ it.order c.databases.entries, fs.writable e.2.metadata.metaFilePath = true) :
    ∃ fs', c.flush it fs = .ok fs' ∧
      fs'.content c.catalogFilePath = some (encodeCatalog (it.order c.databases.entries)) ∧
      ∀ e ∈ it.order c.databases.entries,
        fs'.content e.2.metadata.metaFilePath = some (encodeMetadata it e.2) := by
  obtain ⟨fs₁, hsave, hsaved, -⟩ := save_all it fs hnodup hw'
  refine ⟨fs₁.write c.catalogFilePath (encodeCatalog (it.order c.databases.entries)), ?_,
    Function.update_self .., ?_⟩
  · simp only [Catalog.flush, hw, Bool.not_true, Bool.false_eq_true, if_false, hsave, ok_bind]
    rfl
  · intro e he
    rw [← hsaved e he]
    exact Function.update_of_ne (hne e he) _ _

theorem allLoaded {es : List CatalogEntry} (hfits : ∀ e ∈ es, e.Fits limit)
    (hlen : es.length < 256 ^ 4) :
    AllLoaded limit clock (loadedCatalog limit clock garbage fs path dir es) := by
  obtain ⟨hfrom, hle⟩ := emplaceAll_from clock garbage fs hfits 0 ∅
    (by simp)
  have hempty : (∅ : AList fun _ : Bytes => Database).entries.length = 0 := rfl
  rw [hempty, Nat.zero_add] at hle
  exact ⟨hfrom, Nat.lt_of_le_of_lt hle hlen⟩

theorem perm_of_nodup (clock : Clock) (garbage : Nat → Nat) (it : Iteration) (fs : FileSystem)
    (path dir : Bytes) {es : List CatalogEntry} (hfits : ∀ e ∈ es, e.Fits limit)
    (hnodup : (es.map CatalogEntry.dbName).Nodup) :
    ((it.order (loadedCatalog limit clock garbage fs path dir es).databases.entries).map
      Entry.toFile).Perm es := by
  obtain ⟨hall, hother⟩ := lookup_emplaceAll limit clock garbage fs hnodup 0 ∅
    (fun _ _ hin => by cases hin)
  have hfile : ∀ (j : Nat) e, es[j]? = some e →
      Entry.toFile ⟨e.dbName, loadedDatabase limit clock garbage fs j e⟩ = e := by
    intro j e hj
    have hfrom := loadedDatabase_from clock garbage fs j
      (hfits e (List.mem_of_getElem? hj))
    simp only [Entry.toFile, hfrom.dbFilePath, hfrom.metaFilePath]
  have hkeys : ((it.order (loadedCatalog limit clock garbage fs path dir es).databases.entries).map
      Entry.toFile).Nodup := by
    apply List.Nodup.of_map CatalogEntry.dbName
    rw [List.map_map]
    exact Catalog.nodup_order_keys _
  rw [List.perm_ext_iff_of_nodup hkeys hnodup.of_map]
  intro e
  rw [List.mem_map]
  constructor
  · rintro ⟨⟨name, db⟩, hd, rfl⟩
    have hl := Catalog.mem_order.mp hd
    simp only [loadedCatalog] at hl
    by_cases hname : name ∈ es.map CatalogEntry.dbName
    · obtain ⟨e, he, rfl⟩ := List.mem_map.mp hname
      obtain ⟨j, hj⟩ := List.getElem?_of_mem he
      rw [hall j e hj, Nat.zero_add] at hl
      cases hl
      rw [hfile j e hj]
      exact he
    · rw [hother name hname, AList.lookup_empty] at hl
      cases hl
  · intro he
    obtain ⟨j, hj⟩ := List.getElem?_of_mem he
    refine ⟨⟨e.dbName, loadedDatabase limit clock garbage fs j e⟩, ?_, hfile j e hj⟩
    rw [Catalog.mem_order, loadedCatalog, hall j e hj, Nat.zero_add]

theorem mem_order_of_nodup {es : List CatalogEntry} (hnodup : (es.map CatalogEntry.dbName).Nodup)
    {i : Nat} {e : CatalogEntry} (hi : es[i]? = some e) :
    ⟨e.dbName, loadedDatabase limit clock garbage fs i e⟩ ∈
      it.order (loadedCatalog limit clock garbage fs path dir es).databases.entries := by
  obtain ⟨hall, -⟩ := lookup_emplaceAll limit clock garbage fs hnodup 0 ∅ (fun _ _ hin => by cases hin)
  rw [Catalog.mem_order, loadedCatalog, hall i e hi, Nat.zero_add]

/-- Where every file can be written, the destructor writes what the constructor has loaded. -/
theorem flush_loaded (clock : Clock) (garbage : Nat → Nat) (it : Iteration) (dir : Bytes)
    {es : List CatalogEntry} (hfits : ∀ e ∈ es, e.Fits limit)
    (hnodup : (es.map CatalogEntry.dbName).Nodup)
    (hmetas : (es.map CatalogEntry.metaFilePath).Nodup) (hne : ∀ e ∈ es, e.metaFilePath ≠ path)
    (hw : fs.writable path = true) (hwm : ∀ e ∈ es, fs.writable e.metaFilePath = true) :
    ∃ fs', (loadedCatalog limit clock garbage fs path dir es).flush it fs = .ok fs' ∧
      fs'.content path = some (encodeCatalog
        (it.order (loadedCatalog limit clock garbage fs path dir es).databases.entries)) ∧
      ∀ (i : Nat) e, es[i]? = some e → fs'.content e.metaFilePath =
        some (encodeMetadata it (loadedDatabase limit clock garbage fs i e)) := by
  have hperm := perm_of_nodup clock garbage it fs path dir hfits hnodup
  have hmem : ∀ d ∈ it.order (loadedCatalog limit clock garbage fs path dir es).databases.entries,
      Entry.toFile d ∈ es :=
    fun d hd => hperm.mem_iff.mp (List.mem_map_of_mem hd)
  have hpaths := (hperm.map CatalogEntry.metaFilePath).nodup_iff.mpr hmetas
  rw [List.map_map] at hpaths
  obtain ⟨fs', hflush, hcatalog, hmeta⟩ := flush_distinct hw hpaths (fun d hd => hne _ (hmem d hd))
    (fun d hd => hwm _ (hmem d hd))
  refine ⟨fs', hflush, hcatalog, fun i e hi => ?_⟩
  have hfrom := loadedDatabase_from clock garbage fs i
    (hfits e (List.mem_of_getElem? hi))
  have hsaved := hmeta _ (mem_order_of_nodup hnodup hi)
  rwa [hfrom.metaFilePath] at hsaved

/-! ## Opening and closing -/

/-- Whatever the constructor has loaded, the catalog file decodes when it has been written. -/
theorem flush_decodes {es : List CatalogEntry} (hfits : ∀ e ∈ es, e.Fits limit)
    (hlen : es.length < 256 ^ 4) (hw : fs.writable path = true) {fs' : FileSystem}
    (h : (loadedCatalog limit clock garbage fs path dir es).flush it fs = .ok fs') :
    DecodesCatalog (fs'.content path)
      ((it.order (loadedCatalog limit clock garbage fs path dir es).databases.entries).map
        Entry.toFile) := by
  have hwritten := (flush_writable hw h).1
  rw [show fs'.content path = _ from hwritten]
  exact (allLoaded hfits hlen).decodes it

theorem openClose_unwritable (hw : fs.writable path = false) :
    openClose limit clock garbage it fs path dir = .ok fs := by
  rw [openClose]
  rcases load_cases limit clock garbage fs path dir with ⟨content, hcontent, hthrows⟩ |
    ⟨es, -, -, hload⟩
  · obtain ⟨e, he⟩ := hthrows.load clock garbage dir hcontent
    rw [he]
  · simp only [hload, Catalog.flush, loadedCatalog, hw, Bool.not_false, if_true]

theorem openClose_throws {content : Bytes} (hcontent : fs.content path = some content)
    (h : Throws limit content) : openClose limit clock garbage it fs path dir = .ok fs := by
  obtain ⟨e, he⟩ := h.load clock garbage dir hcontent
  rw [openClose, he]

/-- Opening a catalog and closing it leaves its files as they were exactly when they are steady. -/
theorem openClose_noOp_iff (hdistinct : DistinctFiles fs path) :
    (∃ fs', openClose limit clock garbage it fs path dir = .ok fs' ∧ Kept path fs fs') ↔
      Steady limit clock fs path := by
  constructor
  · rintro ⟨fs', hopen, hkept⟩
    cases hw : fs.writable path with
    | false => exact .inl hw
    | true =>
        refine .inr ?_
        by_cases hbefore : ∃ es, DecodesCatalog (fs.content path) es
        · obtain ⟨es, hes⟩ := hbefore
          refine (load_decodes clock garbage dir hes).imp_right ?_
          rintro ⟨hfits, hload⟩
          rw [openClose, hload] at hopen
          obtain ⟨es', hes', hperm⟩ := hkept.catalog.accepted es hes
          obtain rfl := hes'.unique (flush_decodes hfits hes.1 hw hopen)
          have hnodup : (es.map CatalogEntry.dbName).Nodup := by
            rw [← (hperm.map _).nodup_iff, List.map_map]
            exact Catalog.nodup_order_keys _
          refine ⟨es, hes, hnodup, fun i e hi => ?_⟩
          have hwm : ∀ e ∈ es, fs.writable e.metaFilePath = true := by
            intro e he
            obtain ⟨d, hd, rfl⟩ := List.mem_map.mp (hperm.mem_iff.mpr he)
            exact (flush_writable hw hopen).2 d hd
          have he := List.mem_of_getElem? hi
          obtain ⟨fs'', hflush, -, hmeta⟩ := flush_loaded clock garbage it dir hfits hnodup
            (hdistinct es hes).1 (hdistinct es hes).2 hw hwm
          cases hflush.symm.trans hopen
          have hkeptMeta := hkept.metadata es hes e he
          rw [hmeta i e hi] at hkeptMeta
          exact ⟨hwm e he, (keptMetadata_iff i (hfits e he)).mp hkeptMeta⟩
        · rcases load_cases limit clock garbage fs path dir with hthrows |
            ⟨es, hfits, hlen, hload⟩
          · exact .inl hthrows
          · rw [openClose, hload] at hopen
            have hafter := flush_decodes hfits hlen hw hopen
            rw [hkept.catalog.rejected fun es hes => hbefore ⟨es, hes⟩] at hafter
            exact absurd ⟨_, hafter⟩ hbefore
  · rintro (hw | ⟨content, hcontent, hthrows⟩ | ⟨es, hes, hnodup, hall⟩)
    · exact ⟨fs, openClose_unwritable hw, .refl path fs⟩
    · exact ⟨fs, openClose_throws hcontent hthrows, .refl path fs⟩
    · cases hw : fs.writable path with
      | false => exact ⟨fs, openClose_unwritable hw, .refl path fs⟩
      | true =>
          rcases load_decodes clock garbage dir hes with
            ⟨content, hcontent, hthrows⟩ | ⟨hfits, hload⟩
          · exact ⟨fs, openClose_throws hcontent hthrows, .refl path fs⟩
          · have hwm : ∀ e ∈ es, fs.writable e.metaFilePath = true := by
              intro e he
              obtain ⟨i, hi⟩ := List.getElem?_of_mem he
              exact (hall i e hi).1
            obtain ⟨fs', hflush, -, hmeta⟩ := flush_loaded clock garbage it dir hfits hnodup
              (hdistinct es hes).1 (hdistinct es hes).2 hw hwm
            refine ⟨fs', by rw [openClose, hload]; exact hflush, ⟨?_, fun h => absurd hes (h es)⟩, ?_⟩
            · intro ds hds
              obtain rfl := hds.unique hes
              exact ⟨_, flush_decodes hfits hes.1 hw hflush, perm_of_nodup _ _ _ _ _ _ hfits hnodup⟩
            · intro ds hds e he
              obtain rfl := hds.unique hes
              obtain ⟨i, hi⟩ := List.getElem?_of_mem he
              rw [hmeta i e hi]
              exact (keptMetadata_iff i (hfits e he)).mpr (hall i e hi).2

/-! ## The files of one database -/

def shopEntry : CatalogEntry :=
  { dbName := ascii "shop", dbFilePath := ascii "shop.db", metaFilePath := ascii "shop.meta" }

def shopMetadata : MetadataFile :=
  { dbName := ascii "shop", metaFilePath := ascii "shop.meta", dbFilePath := ascii "shop.db",
    createdAt := 3, updatedAt := 0, namespaces := [(ascii "public", 0)] }

def shopFiles : FileSystem where
  content := fun path =>
    if path = ascii "shop.meta" then some shopMetadata.encode else some (encodeEntries [shopEntry])
  writable := fun _ => true

theorem decodes_shopEntry :
    DecodesCatalog (shopFiles.content (ascii "catalog.cat")) [shopEntry] := by
  refine ⟨by decide, ?_, [], ?_⟩
  · intro e he
    cases List.mem_singleton.mp he
    exact ⟨by decide, by decide, by decide⟩
  · rw [List.append_nil]
    rfl

theorem distinct_shopFiles : DistinctFiles shopFiles (ascii "catalog.cat") := by
  intro es hes
  obtain rfl := hes.unique decodes_shopEntry
  refine ⟨List.nodup_singleton _, fun e he => ?_⟩
  cases List.mem_singleton.mp he
  decide

/-- The clock has stood still since the database was created. -/
theorem openClose_shop :
    ∃ fs', openClose ⟨100, by decide, by decide⟩ ⟨fun _ => 3, fun _ _ => 4⟩ (fun _ => 0)
        ⟨id, List.Perm.refl⟩ shopFiles (ascii "catalog.cat") (ascii "db") = .ok fs' ∧
      Kept (ascii "catalog.cat") shopFiles fs' := by
  refine (openClose_noOp_iff distinct_shopFiles).mpr (.inr (.inr ⟨[shopEntry],
    decodes_shopEntry, List.nodup_singleton _, ?_⟩))
  intro i e hi
  cases List.mem_singleton.mp (List.mem_of_getElem? hi)
  refine ⟨rfl, shopMetadata, ⟨⟨by decide, by decide, by decide, by decide, by decide⟩, [], ?_⟩, rfl,
    rfl, rfl, rfl, List.nodup_singleton _, by decide⟩
  rw [List.append_nil]
  rfl

/-- A catalog file of one byte is not read, and written over. -/
theorem openClose_foreign :
    ¬ ∃ fs', openClose ⟨100, by decide, by decide⟩ ⟨fun _ => 3, fun _ _ => 4⟩ (fun _ => 0)
        ⟨id, List.Perm.refl⟩ ⟨fun _ => some [7], fun _ => true⟩ (ascii "catalog.cat")
        (ascii "db") = .ok fs' ∧
      Kept (ascii "catalog.cat") ⟨fun _ => some [7], fun _ => true⟩ fs' := by
  rintro ⟨fs', hopen, hkept⟩
  have hforeign : ∀ es, ¬ DecodesCatalog (some [7]) es := by
    rintro es ⟨-, -, tail, heq⟩
    have hlen := congrArg List.length (Option.some.inj heq)
    simp only [encodeEntries, List.length_append, length_leBytes, List.length_cons,
      List.length_nil] at hlen
    omega
  cases hopen
  have hafter := hkept.catalog.rejected hforeign
  exact absurd hafter (by decide)

end TurtleDb.Catalog
