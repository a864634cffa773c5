import TurtleDb.Catalog.Persistence

/-!
# Metadata files that end early

`load_database_metadata` checks the magic number and no other read. From a file that ends early it
takes for the count what bytes of it are there and what the variable held before, creates the empty
namespace for every name whose length is missing, and fills up a name that is cut with zeros.
-/

set_option linter.dupNamespace false

namespace TurtleDb.Catalog

open TurtleDb.Lib

variable {limit : StringLimit}

/-! ## Reading behind the cut -/

/-- What is read of a string when `available` bytes of its encoding are there. -/
def cutString (s : Bytes) (available : Nat) : Bytes :=
  if available < 8 then [] else s.take (available - 8) ++ List.replicate (s.length + 8 - available) 0

theorem cutString_of_le {s : Bytes} {available : Nat} (h : 8 + s.length ≤ available) :
    cutString s available = s := by
  have hz : s.length + 8 - available = 0 := by omega
  rw [cutString, if_neg (by omega), List.take_of_length_le (by omega), hz, List.replicate_zero,
    List.append_nil]

theorem readString_cut {s : Bytes} (hs : s.length ≤ limit.val) (tail : Bytes) (m c : Nat) :
    readString limit (ByteReader.cut (writeString s ++ tail) m c) =
      .ok (cutString s (c - m), ByteReader.cut tail (m + (8 + s.length)) c) := by
  have hlt : s.length < 256 ^ 8 := Nat.lt_of_le_of_lt hs limit.lt
  rw [readString, writeString, List.append_assoc, ByteReader.readWord_cut]
  dsimp only
  rw [ByteReader.good_cut]
  by_cases h : m + 8 ≤ c
  · have hword : leNat ((leBytes 8 s.length).take (c - m) ++ (leBytes 8 0).drop (c - m)) =
        s.length := by
      rw [List.take_of_length_le (by rw [length_leBytes]; omega),
        List.drop_of_length_le (by rw [length_leBytes]; omega), List.append_nil, leNat_leBytes,
        Nat.mod_eq_of_lt hlt]
    have hlen : s.length = (List.replicate s.length (0 : UInt8)).length := by simp
    have hread := ByteReader.read_cut hlen tail (m + 8) c
    simp only [h, decide_true, Bool.not_true, Bool.false_eq_true, if_false, hword]
    rw [if_neg (by omega), hread, cutString, if_neg (by omega), List.drop_replicate]
    have h1 : c - (m + 8) = c - m - 8 := by omega
    have h2 : s.length - (c - m - 8) = s.length + 8 - (c - m) := by omega
    rw [h1, h2, Nat.add_assoc]
  · simp only [h, decide_false, Bool.not_false, if_true]
    rw [cutString, if_pos (by omega), ByteReader.cut, if_neg (by omega), ByteReader.cut,
      if_neg (by omega)]

/-- From the end of the file nothing but empty strings is read. -/
theorem readString_end (m c : Nat) : readString limit (ByteReader.cut [] m c) =
    .ok ([], ByteReader.cut [] (c + 1) c) := by
  have hold : leBytes 8 0 ≠ [] := by decide
  rw [readString, ByteReader.readWord, ByteReader.read_end hold]
  dsimp only
  rw [ByteReader.good_cut]
  simp

/-! ## The header -/

/-- The bytes in front of the count. -/
def headerLength (db : Database) : Nat :=
  4 + (8 + db.metadata.dbName.length) + (8 + db.metadata.metaFilePath.length) +
    (8 + db.metadata.dbFilePath.length) + 8 + 8

/-- The count as it is read: bytes that are missing keep what the variable held. -/
def cutCount (db : Database) (garbage c : Nat) : Nat :=
  leNat ((leBytes 4 (trunc32 db.metadata.namespaceCount)).take (c - headerLength db) ++
    (leBytes 4 garbage).drop (c - headerLength db))

/-- What the file has behind the count. -/
def encodeNames (it : Iteration) (db : Database) : Bytes :=
  ((it.order db.namespaces.entries).map fun e => encodeNamespace db.metadata e.1).flatten

theorem readHeader_cut (it : Iteration) {db : Database} (hfits : db.Fits limit) (garbage : Nat)
    (metaFile : Bytes) {c : Nat} (hc : 4 ≤ c) :
    ∃ header, readHeader limit garbage metaFile ((encodeMetadata it db).take c) =
        .ok (header, ByteReader.cut (encodeNames it db) (headerLength db + 4) c) ∧
      header.namespaceCount = cutCount db garbage c := by
  have hmagic : leNat ((leBytes 4 magicNumber).take c ++ (leBytes 4 0).drop c) = magicNumber := by
    rw [List.take_of_length_le (by simpa using hc), List.drop_of_length_le (by simpa using hc)]
    decide
  rw [readHeader, ← ByteReader.cut_zero]
  simp only [encodeMetadata, List.append_assoc, ByteReader.readWord_cut, Nat.sub_zero, Nat.zero_add,
    ByteReader.good_cut, hc, decide_true, Bool.not_true, hmagic, ne_eq, not_true_eq_false,
    decide_false, Bool.or_self, Bool.false_eq_true, if_false, readString_cut hfits.dbName,
    readString_cut hfits.metaFilePath, readString_cut hfits.dbFilePath, ok_bind]
  exact ⟨_, rfl, rfl⟩

theorem readHeader_short (limit : StringLimit) (it : Iteration) (db : Database) (garbage : Nat)
    (metaFile : Bytes) {c : Nat} (hc : c < 4) :
    ∃ e, readHeader limit garbage metaFile ((encodeMetadata it db).take c) = .error e := by
  rw [readHeader, ← ByteReader.cut_zero]
  simp only [encodeMetadata, List.append_assoc, ByteReader.readWord_cut, Nat.zero_add,
    ByteReader.good_cut, Nat.not_le_of_lt hc, decide_false, Bool.not_false, Bool.true_or, if_true]
  exact ⟨_, rfl⟩

/-! ## The namespaces -/

/-- The names the loop reads in `k` turns when `available` bytes of the entries are there. -/
def cutNames : Nat → List Bytes → Nat → List Bytes
  | 0, _, _ => []
  | k + 1, [], _ => [] :: cutNames k [] 0
  | k + 1, name :: names, available =>
      cutString name available :: cutNames k names (available - (12 + name.length))

theorem loadNamespaces_cut (touched : Nat → UInt64) (metadata : Metadata) {names : List Bytes}
    (hnames : ∀ name ∈ names, name.length ≤ limit.val) (k i m c : Nat) (db : Database) :
    ∃ db', loadNamespaces limit touched k i
        (ByteReader.cut (names.map (encodeNamespace metadata)).flatten m c) db = (db', none) ∧
      Extends db db' (cutNames k names (c - m)) := by
  induction k generalizing names i m db with
  | zero => exact ⟨db, rfl, Extends.refl db⟩
  | succ k ih =>
      cases names with
      | nil =>
          have hold : leBytes 4 0 ≠ [] := by decide
          obtain ⟨db', hload, hext⟩ := ih (List.forall_mem_nil _) (i + 1) (c + 1)
            (db.createNamespace [] (touched i))
          have hz : c - (c + 1) = 0 := by omega
          rw [hz] at hext
          refine ⟨db', ?_, (createNamespace_extends db [] (touched i)).trans hext⟩
          rw [loadNamespaces, List.map_nil, List.flatten_nil, readString_end]
          dsimp only
          rw [ByteReader.readWord, ByteReader.read_end hold]
          exact hload
      | cons name names =>
          have hname := hnames name List.mem_cons_self
          obtain ⟨db', hload, hext⟩ := ih (fun n hn => hnames n (List.mem_cons_of_mem _ hn)) (i + 1)
            (m + (8 + name.length) + 4) (db.createNamespace (cutString name (c - m)) (touched i))
          have hsub : c - (m + (8 + name.length) + 4) = c - m - (12 + name.length) := by omega
          rw [hsub] at hext
          refine ⟨db', ?_, (createNamespace_extends db _ (touched i)).trans hext⟩
          rw [loadNamespaces, List.map_cons, List.flatten_cons, encodeNamespace, List.append_assoc,
            readString_cut hname]
          dsimp only
          rw [ByteReader.readWord_cut]
          exact hload

/-! ## What is invented -/

/-- The turns of the loop over the namespaces. -/
def iterations (limit : StringLimit) (garbage : Nat) (metaFile content : Bytes) : Nat :=
  match readHeader limit garbage metaFile content with
  | .error _ => 0
  | .ok (header, _) => header.namespaceCount

/-- Loading `content` into a new database raises or registers saved namespaces only, and the loop
makes no more turns than there are bytes. -/
def InventsNothing (limit : StringLimit) (touched : Nat → UInt64) (garbage : Nat)
    (metaFile content : Bytes) (metadata : Metadata) (saved : Database) : Prop :=
  ((loadDatabaseMetadata limit touched garbage metaFile (some content)
      (Database.make metadata)).2 ≠ none ∨
    ∀ name, name ∈ (loadDatabaseMetadata limit touched garbage metaFile (some content)
      (Database.make metadata)).1.namespaces → name ∈ saved.namespaces) ∧
  iterations limit garbage metaFile content ≤ content.length

/-- In `k` turns over entries of which `available` bytes are there, the cut makes no name that was
not saved: there is no cut among them, or what it leaves of a name is a saved name, and so is the
empty one if there are turns left. -/
def Harmless (saved : Bytes → Prop) : Nat → List Bytes → Nat → Prop
  | 0, _, _ => True
  | _ + 1, [], _ => saved []
  | k + 1, name :: names, available =>
      if 12 + name.length ≤ available then Harmless saved k names (available - (12 + name.length))
      else saved (cutString name available) ∧ (k = 0 ∨ saved [])

theorem forall_cutNames_zero {saved : Bytes → Prop} (k : Nat) (names : List Bytes) :
    (∀ n ∈ cutNames k names 0, saved n) ↔ k = 0 ∨ saved [] := by
  induction k generalizing names with
  | zero => simp [cutNames]
  | succ k ih =>
      have hcut : ∀ name, cutString name 0 = [] := fun name => if_pos (by decide)
      cases names with
      | nil =>
          rw [cutNames, List.forall_mem_cons, ih]
          simp +contextual
      | cons name names =>
          rw [cutNames, List.forall_mem_cons, hcut, Nat.zero_sub, ih]
          simp +contextual

theorem harmless_iff {saved : Bytes → Prop} {names : List Bytes} (hsaved : ∀ n ∈ names, saved n)
    (k available : Nat) : (∀ n ∈ cutNames k names available, saved n) ↔
      Harmless saved k names available := by
  induction k generalizing names available with
  | zero => simp [cutNames, Harmless]
  | succ k ih =>
      cases names with
      | nil =>
          rw [cutNames, List.forall_mem_cons, forall_cutNames_zero, Harmless]
          exact ⟨And.left, fun h => ⟨h, .inr h⟩⟩
      | cons name names =>
          rw [cutNames, List.forall_mem_cons, Harmless]
          split
          next hle =>
            rw [cutString_of_le (by omega), ih (fun n hn => hsaved n (List.mem_cons_of_mem _ hn))]
            exact and_iff_right (hsaved name List.mem_cons_self)
          next hle =>
            have hz : available - (12 + name.length) = 0 := by omega
            rw [hz, forall_cutNames_zero]

/-- The cut is in the magic number, or the count that is read is at most the number of bytes and the
loop meets no cut, or only one that makes saved names. -/
def CutSafe (it : Iteration) (db : Database) (garbage c : Nat) : Prop :=
  c < 4 ∨ cutCount db garbage c ≤ c ∧
    Harmless (· ∈ db.namespaces) (cutCount db garbage c)
      ((it.order db.namespaces.entries).map Sigma.fst) (c - (headerLength db + 4))

theorem loadDatabaseMetadata_cut (it : Iteration) {db : Database} (hfits : db.Fits limit)
    (touched : Nat → UInt64) (garbage : Nat) (metaFile : Bytes) (new : Database) {c : Nat}
    (hc : 4 ≤ c) :
    ∃ db', loadDatabaseMetadata limit touched garbage metaFile
        (some ((encodeMetadata it db).take c)) new = (db', none) ∧
      Extends new db' (cutNames (cutCount db garbage c)
        ((it.order db.namespaces.entries).map Sigma.fst) (c - (headerLength db + 4))) ∧
      iterations limit garbage metaFile ((encodeMetadata it db).take c) = cutCount db garbage c := by
  obtain ⟨header, hheader, hcount⟩ := readHeader_cut it hfits garbage metaFile hc
  have hnames : ∀ name ∈ (it.order db.namespaces.entries).map Sigma.fst,
      name.length ≤ limit.val := by
    intro name hname
    obtain ⟨e, he, rfl⟩ := List.mem_map.mp hname
    exact hfits.namespaces e.1 (List.mem_map_of_mem (f := Sigma.fst) ((it.perm _).mem_iff.mp he))
  obtain ⟨db', hload, hext⟩ := loadNamespaces_cut touched db.metadata hnames
    (cutCount db garbage c) 0 (headerLength db + 4) c new
  rw [List.map_map] at hload
  refine ⟨{ db' with metadata := db'.metadata.touch (touched header.namespaceCount) }, ?_,
    { hext with }, ?_⟩
  · rw [loadDatabaseMetadata, hheader]
    dsimp only
    rw [hcount, encodeNames]
    change loadNamespaces limit touched (cutCount db garbage c) 0 (ByteReader.cut
      ((it.order db.namespaces.entries).map fun e => encodeNamespace db.metadata e.1).flatten
      (headerLength db + 4) c) new = _ at hload
    rw [hload]
  · rw [iterations, hheader]
    exact hcount

/-- A metadata file cut behind `c` bytes invents nothing exactly if the cut is safe. -/
theorem truncated_iff (limit : StringLimit) (it : Iteration) (db : Database) (hfits : db.Fits limit)
    (touched : Nat → UInt64) (garbage : Nat) (metaFile : Bytes) (metadata : Metadata) (c : Nat)
    (hc : c < (encodeMetadata it db).length) :
    InventsNothing limit touched garbage metaFile ((encodeMetadata it db).take c) metadata db ↔
      CutSafe it db garbage c := by
  have hlen : ((encodeMetadata it db).take c).length = c := by
    rw [List.length_take]
    omega
  by_cases h4 : c < 4
  · obtain ⟨e, he⟩ := readHeader_short limit it db garbage metaFile h4
    refine ⟨fun _ => .inl h4, fun _ => ⟨.inl ?_, ?_⟩⟩
    · rw [loadDatabaseMetadata, he]
      exact Option.some_ne_none e
    · rw [iterations, he]
      exact Nat.zero_le _
  · obtain ⟨db', hload, hext, hcount⟩ := loadDatabaseMetadata_cut it hfits touched garbage
      metaFile (Database.make metadata) (Nat.le_of_not_lt h4)
    have hsaved : ∀ n ∈ (it.order db.namespaces.entries).map Sigma.fst, n ∈ db.namespaces := by
      intro name hname
      obtain ⟨e, he, rfl⟩ := List.mem_map.mp hname
      exact List.mem_map_of_mem (f := Sigma.fst) ((it.perm _).mem_iff.mp he)
    have hmem : ∀ name, name ∈ db'.namespaces ↔ name ∈ cutNames (cutCount db garbage c)
        ((it.order db.namespaces.entries).map Sigma.fst) (c - (headerLength db + 4)) := by
      intro name
      rw [hext.mem_iff]
      exact or_iff_left fun h => by cases h
    rw [InventsNothing, hload, hcount, hlen, CutSafe, ← harmless_iff hsaved]
    simp only [hmem, ne_eq, not_true_eq_false, false_or, h4]
    exact and_comm

/-- A database with the one namespace `a`. Its file has 61 bytes, the name from byte 48 on. -/
def smallDatabase : Database :=
  (Database.make (Metadata.make [] [] [] 0)).createNamespace [97] 0

theorem fits_smallDatabase : smallDatabase.Fits ⟨100, by decide, by decide⟩ := by
  refine ⟨by decide, by decide, by decide, fun name hname => ?_⟩
  have hkeys : smallDatabase.namespaces.keys = [[97]] := rfl
  rw [AList.mem_keys, hkeys, List.mem_singleton] at hname
  subst hname
  decide

/-- Without the last three bytes, those of a count of tables, the file names the same namespaces. -/
theorem truncated_iff_last_count :
    InventsNothing ⟨100, by decide, by decide⟩ (fun _ => 0) 0 []
      ((encodeMetadata ⟨id, List.Perm.refl⟩ smallDatabase).take 58) (Metadata.make [] [] [] 0)
      smallDatabase :=
  (truncated_iff ⟨100, by decide, by decide⟩ ⟨id, List.Perm.refl⟩ smallDatabase fits_smallDatabase
    (fun _ => 0) 0 [] (Metadata.make [] [] [] 0) 58 (by decide)).mpr
    (.inr ⟨by decide, by decide, .inl rfl⟩)

/-- Without its last five bytes the file names a namespace that is called by a zero byte. -/
theorem smallDatabase_truncated : ¬ ∀ (limit : StringLimit) (it : Iteration) (db : Database),
    db.Fits limit → ∀ (touched : Nat → UInt64) (garbage : Nat) (metaFile : Bytes)
      (metadata : Metadata) (c : Nat), c < (encodeMetadata it db).length →
      InventsNothing limit touched garbage metaFile ((encodeMetadata it db).take c) metadata
        db := by
  intro h
  obtain ⟨hnames, -⟩ := h ⟨100, by decide, by decide⟩ ⟨id, List.Perm.refl⟩ smallDatabase
    fits_smallDatabase (fun _ => 0) 0 [] (Metadata.make [] [] [] 0) 56 (by decide)
  rcases hnames with hraised | hnames
  · exact hraised (by rfl)
  · have hzero := hnames [0] (by decide)
    have hkeys : smallDatabase.namespaces.keys = [[97]] := rfl
    rw [AList.mem_keys, hkeys] at hzero
    exact absurd hzero (by decide)

end TurtleDb.Catalog
