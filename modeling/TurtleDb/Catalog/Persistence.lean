import TurtleDb.Catalog.Files

/-!
# Saving and loading a catalog

A catalog that was built by creating databases and namespaces, flushed and loaded again has the same
databases, with the same paths and namespaces, and counts its namespaces right.
-/

set_option linter.dupNamespace false

namespace TurtleDb.Catalog

open TurtleDb.Lib

variable {limit : StringLimit} {it : Iteration}

/-! ## Catalogs in memory -/

/-- The counter of the namespaces agrees with their map. -/
def Database.Counted (db : Database) : Prop :=
  db.metadata.namespaceCount = db.namespaces.entries.length

/-- Every string of the database fits the limit. -/
structure Database.Fits (limit : StringLimit) (db : Database) : Prop where
  dbName : db.metadata.dbName.length ≤ limit.val
  dbFilePath : db.metadata.dbFilePath.length ≤ limit.val
  metaFilePath : db.metadata.metaFilePath.length ≤ limit.val
  namespaces : ∀ name ∈ db.namespaces, name.length ≤ limit.val

/-- What `create_namespace` does, whether the namespace is new or not. -/
structure Extends (db db' : Database) (names : List Bytes) : Prop where
  dbName : db'.metadata.dbName = db.metadata.dbName
  dbFilePath : db'.metadata.dbFilePath = db.metadata.dbFilePath
  metaFilePath : db'.metadata.metaFilePath = db.metadata.metaFilePath
  createdAt : db'.metadata.createdAt = db.metadata.createdAt
  tableCount : db'.metadata.tableCount = db.metadata.tableCount
  mem_iff : ∀ name, name ∈ db'.namespaces ↔ name ∈ names ∨ name ∈ db.namespaces
  counted : db.Counted → db'.Counted

theorem Extends.refl (db : Database) : Extends db db [] :=
  ⟨rfl, rfl, rfl, rfl, rfl, by simp, id⟩

theorem Extends.trans {db db' db'' : Database} {ns ns' : List Bytes} (h : Extends db db' ns)
    (h' : Extends db' db'' ns') : Extends db db'' (ns ++ ns') := by
  refine ⟨h'.dbName.trans h.dbName, h'.dbFilePath.trans h.dbFilePath,
    h'.metaFilePath.trans h.metaFilePath, h'.createdAt.trans h.createdAt,
    h'.tableCount.trans h.tableCount, ?_, fun hc => h'.counted (h.counted hc)⟩
  intro name
  rw [h'.mem_iff, h.mem_iff, List.mem_append]
  grind

theorem createNamespace_extends (db : Database) (name : Bytes) (now : UInt64) :
    Extends db (db.createNamespace name now) [name] := by
  unfold Database.createNamespace
  cases hl : db.namespaces.lookup name with
  | some ns =>
      have hmem : name ∈ db.namespaces := AList.lookup_isSome.mp (by simp [hl])
      refine ⟨rfl, rfl, rfl, rfl, rfl, ?_, id⟩
      intro other
      simp only [List.mem_singleton]
      constructor
      · exact .inr
      · rintro (rfl | h)
        · exact hmem
        · exact h
  | none =>
      have hmem : name ∉ db.namespaces := AList.lookup_eq_none.mp hl
      refine ⟨rfl, rfl, rfl, rfl, rfl, ?_, ?_⟩
      · intro other
        simp [AList.mem_insert]
      · intro hc
        simp only [Database.Counted, Metadata.touch, Metadata.increaseNamespace,
          AList.entries_insert_of_notMem hmem, List.length_cons] at hc ⊢
        omega

theorem Extends.fits {db db' : Database} {names : List Bytes} (h : Extends db db' names)
    (hdb : db.Fits limit) (hnames : ∀ name ∈ names, name.length ≤ limit.val) :
    db'.Fits limit := by
  refine ⟨h.dbName ▸ hdb.dbName, h.dbFilePath ▸ hdb.dbFilePath,
    h.metaFilePath ▸ hdb.metaFilePath, ?_⟩
  intro name hname
  rcases (h.mem_iff name).mp hname with hnew | hold
  · exact hnames name hnew
  · exact hdb.namespaces name hold

/-- The catalogs that calls of `create_database` and `create_namespace` can build. -/
inductive Reachable (limit : StringLimit) (catalogFilePath dbDir : Bytes) : Catalog → Prop where
  | empty : Reachable limit catalogFilePath dbDir (Catalog.empty catalogFilePath dbDir)
  | createDatabase {c c' : Catalog} {name : Bytes} {filesCreated created : Bool}
      {now touched : UInt64} (h : Reachable limit catalogFilePath dbDir c)
      (hc : c.createDatabase limit name filesCreated now touched = .ok (created, c')) :
      Reachable limit catalogFilePath dbDir c'
  | createNamespace {c c' : Catalog} {databaseName namespaceName : Bytes} {now : UInt64}
      (h : Reachable limit catalogFilePath dbDir c)
      (hc : c.createNamespace limit databaseName namespaceName now = .ok c') :
      Reachable limit catalogFilePath dbDir c'

/-- What holds of every database of a catalog, under its name. -/
structure Sound (limit : StringLimit) (name : Bytes) (db : Database) : Prop where
  name : db.metadata.dbName = name
  fits : db.Fits limit
  counted : db.Counted

theorem alloc_eq_ok {s t : Bytes} (h : alloc limit s = .ok t) : t = s ∧ s.length ≤ limit.val := by
  unfold alloc at h
  split at h
  next hle =>
    cases h
    exact ⟨rfl, hle⟩
  next => cases h

theorem length_le_joinPath (dir p : Bytes) : p.length ≤ (joinPath dir p).length := by
  unfold joinPath
  split
  · exact Nat.le_refl _
  · split
    · simp
    · simp only [List.length_append, List.length_cons]
      omega

theorem Reachable.sound {path dir : Bytes} {c : Catalog} (h : Reachable limit path dir c) :
    c.catalogFilePath = path ∧
      ∀ name db, c.databases.lookup name = some db → Sound limit name db := by
  induction h with
  | empty => exact ⟨rfl, by simp [Catalog.empty]⟩
  | @createDatabase c c' name filesCreated created now touched _ hc ih =>
      obtain ⟨hpath, hsound⟩ := ih
      unfold Catalog.createDatabase at hc
      cases hl : c.databases.lookup name with
      | some db =>
          simp only [hl] at hc
          cases hc
          exact ⟨hpath, hsound⟩
      | none =>
          simp only [hl] at hc
          obtain ⟨dbFilePath, hdb, hc⟩ := bind_eq_ok.mp hc
          obtain ⟨metaFilePath, hmeta, hc⟩ := bind_eq_ok.mp hc
          obtain ⟨rfl, hdble⟩ := alloc_eq_ok hdb
          obtain ⟨rfl, hmetale⟩ := alloc_eq_ok hmeta
          cases filesCreated with
          | false =>
              cases hc
              exact ⟨hpath, hsound⟩
          | true =>
              cases hc
              refine ⟨hpath, ?_⟩
              have hle := length_le_joinPath c.dbDir (name ++ ascii ".db")
              have hlem := length_le_joinPath c.dbDir (name ++ ascii ".meta")
              rw [List.length_append] at hle hlem
              have hpublic : (ascii "public").length ≤ limit.val := by
                have hlen : (ascii "public").length = 6 := by decide
                have := limit.small
                omega
              intro other db hother
              by_cases ho : other = name
              · subst ho
                rw [AList.lookup_insert] at hother
                cases hother
                have hext := createNamespace_extends (Database.make (Metadata.make other
                  (joinPath c.dbDir (other ++ ascii ".db"))
                  (joinPath c.dbDir (other ++ ascii ".meta")) now)) (ascii "public") touched
                refine ⟨hext.dbName, hext.fits ⟨?_, hdble, hmetale, ?_⟩ ?_, hext.counted rfl⟩
                · change other.length ≤ limit.val
                  omega
                · intro n hn
                  cases hn
                · intro n hn
                  cases List.mem_singleton.mp hn
                  exact hpublic
              · rw [AList.lookup_insert_ne ho] at hother
                exact hsound other db hother
  | @createNamespace c c' databaseName namespaceName now _ hc ih =>
      obtain ⟨hpath, hsound⟩ := ih
      unfold Catalog.createNamespace at hc
      cases hl : c.databases.lookup databaseName with
      | none =>
          simp only [hl] at hc
          cases hc
          exact ⟨hpath, hsound⟩
      | some db =>
          simp only [hl] at hc
          obtain ⟨allocated, halloc, hok⟩ := bind_eq_ok.mp hc
          obtain ⟨heq, hle⟩ := alloc_eq_ok halloc
          subst heq
          cases hok
          refine ⟨hpath, ?_⟩
          intro other db' hother
          by_cases ho : other = databaseName
          · subst ho
            rw [AList.lookup_insert] at hother
            cases hother
            have hdb := hsound other db hl
            have hext := createNamespace_extends db allocated now
            refine ⟨hext.dbName.trans hdb.name, hext.fits hdb.fits ?_, hext.counted hdb.counted⟩
            intro n hn
            cases List.mem_singleton.mp hn
            exact hle
          · rw [AList.lookup_insert_ne ho] at hother
            exact hsound other db' hother

/-! ## Reading back what was written -/

theorem readString_writeString {s : Bytes} (h : s.length ≤ limit.val) (tail : Bytes) :
    readString limit (ByteReader.ofBytes (writeString s ++ tail)) =
      .ok (s, ByteReader.ofBytes tail) := by
  have hlt : s.length < 256 ^ 8 := Nat.lt_of_le_of_lt h limit.lt
  rw [readString, writeString, List.append_assoc, ByteReader.readWord_append hlt]
  simp only [ByteReader.good_ofBytes, Bool.not_true, Bool.false_eq_true, if_false]
  rw [if_neg (by omega)]
  exact congrArg Except.ok (ByteReader.read_append (by simp) tail)

theorem readWord_uint64 (t : UInt64) (old : Nat) (tail : Bytes) :
    (ByteReader.ofBytes (leBytes 8 t.toNat ++ tail)).readWord 8 old =
      (t.toNat, ByteReader.ofBytes tail) :=
  ByteReader.readWord_append t.toNat_lt old tail

/-- The namespaces of a file are created one after the other. -/
theorem loadNamespaces_encode (limit : StringLimit) (touched : Nat → UInt64)
    {named : List (Bytes × Nat)} (h : ∀ n ∈ named, n.1.length ≤ limit.val ∧ n.2 < 256 ^ 4) (i : Nat) (tail : Bytes)
    (db : Database) :
    ∃ db', loadNamespaces limit touched named.length i
        (ByteReader.ofBytes ((named.map encodeNamed).flatten ++ tail)) db = (db', none) ∧
      Extends db db' (named.map Prod.fst) := by
  induction named generalizing i db with
  | nil => exact ⟨db, rfl, Extends.refl db⟩
  | cons n named ih =>
      obtain ⟨hname, hcount⟩ := h n List.mem_cons_self
      obtain ⟨db', hload, hext⟩ := ih (fun m hm => h m (List.mem_cons_of_mem _ hm)) (i + 1)
        (db.createNamespace n.1 (touched i))
      refine ⟨db', ?_, (createNamespace_extends db n.1 (touched i)).trans hext⟩
      simp only [List.map_cons, List.flatten_cons, List.length_cons, encodeNamed,
        List.append_assoc, loadNamespaces, readString_writeString hname]
      rw [ByteReader.readWord_append hcount]
      exact hload

/-- Every string of a metadata file fits the limit. -/
structure MetadataFile.Fits (limit : StringLimit) (f : MetadataFile) : Prop where
  dbName : f.dbName.length ≤ limit.val
  metaFilePath : f.metaFilePath.length ≤ limit.val
  dbFilePath : f.dbFilePath.length ≤ limit.val
  namespaces : ∀ n ∈ f.namespaces, n.1.length ≤ limit.val

theorem readHeader_encode {f : MetadataFile} (hvalid : f.Valid) (hfits : f.Fits limit)
    (garbage : Nat) (metaFile tail : Bytes) :
    readHeader limit garbage metaFile (f.encode ++ tail) =
      .ok ({ dbName := f.dbName, metaFilePath := f.metaFilePath, dbFilePath := f.dbFilePath,
             createdAt := f.createdAt.toNat, updatedAt := f.updatedAt.toNat,
             namespaceCount := f.namespaces.length },
        ByteReader.ofBytes ((f.namespaces.map encodeNamed).flatten ++ tail)) := by
  have hmagic : magicNumber < 256 ^ 4 := by decide
  unfold readHeader MetadataFile.encode
  simp only [List.append_assoc, ByteReader.readWord_append hmagic, ByteReader.good_ofBytes,
    Bool.not_true, ne_eq, not_true_eq_false, decide_false, Bool.or_self, Bool.false_eq_true,
    if_false, readString_writeString hfits.dbName, readString_writeString hfits.dbFilePath,
    readString_writeString hfits.metaFilePath, ok_bind, readWord_uint64,
    ByteReader.readWord_append hvalid.count]
  rfl

/-- A database that is loaded from a metadata file gets the namespaces that the file names. -/
theorem loadDatabaseMetadata_encode {f : MetadataFile} (hvalid : f.Valid) (hfits : f.Fits limit)
    (touched : Nat → UInt64) (garbage : Nat) (metaFile tail : Bytes) (new : Database) :
    ∃ db', loadDatabaseMetadata limit touched garbage metaFile (some (f.encode ++ tail)) new =
        (db', none) ∧
      Extends new db' (f.namespaces.map Prod.fst) := by
  obtain ⟨db', hload, hext⟩ := loadNamespaces_encode limit touched
    (fun n hn => ⟨hfits.namespaces n hn, (hvalid.namespaces n hn).2⟩) 0 tail new
  refine ⟨{ db' with metadata := db'.metadata.touch (touched f.namespaces.length) }, ?_, ?_⟩
  · simp only [loadDatabaseMetadata, readHeader_encode hvalid hfits, hload]
  · exact { hext with }

/-! ## The files that are written -/

/-- What the metadata file of a database says. -/
def Database.file (it : Iteration) (db : Database) : MetadataFile where
  dbName := db.metadata.dbName
  metaFilePath := db.metadata.metaFilePath
  dbFilePath := db.metadata.dbFilePath
  createdAt := db.metadata.createdAt
  updatedAt := db.metadata.updatedAt
  namespaces := (it.order db.namespaces.entries).map fun e => (e.1, trunc32 db.metadata.tableCount)

theorem Database.mem_file {db : Database} {n : Bytes × Nat} (h : n ∈ (db.file it).namespaces) :
    n.1 ∈ db.namespaces ∧ n.2 = trunc32 db.metadata.tableCount := by
  obtain ⟨e, he, rfl⟩ := List.mem_map.mp h
  exact ⟨List.mem_map_of_mem (f := Sigma.fst) ((it.perm _).mem_iff.mp he), rfl⟩

theorem Database.length_file (db : Database) :
    (db.file it).namespaces.length = db.namespaces.entries.length := by
  rw [file, List.length_map, (it.perm _).length_eq]

theorem Database.file_names (db : Database) :
    ((db.file it).namespaces.map Prod.fst).Perm db.namespaces.keys := by
  rw [file, List.map_map]
  exact (it.perm _).map _

theorem encodeMetadata_eq (it : Iteration) {db : Database} (hcounted : db.Counted)
    (hcount : db.namespaces.entries.length < word32) :
    encodeMetadata it db = (db.file it).encode := by
  have hlen : trunc32 db.metadata.namespaceCount = (db.file it).namespaces.length := by
    rw [hcounted, trunc32_of_lt hcount, Database.length_file]
  rw [encodeMetadata, hlen, MetadataFile.encode, Database.file, List.map_map]
  rfl

theorem Database.file_fits {db : Database} (h : db.Fits limit) : (db.file it).Fits limit :=
  ⟨h.dbName, h.metaFilePath, h.dbFilePath, fun _ hn => h.namespaces _ (mem_file hn).1⟩

theorem Database.file_valid (it : Iteration) {db : Database} (h : db.Fits limit)
    (hcount : db.namespaces.entries.length < word32) : (db.file it).Valid := by
  have hlt : ∀ {k : Nat}, k ≤ limit.val → k < 256 ^ 8 := fun hk => Nat.lt_of_le_of_lt hk limit.lt
  refine ⟨hlt h.dbName, hlt h.metaFilePath, hlt h.dbFilePath, ?_, ?_⟩
  · rw [length_file]
    exact hcount
  · intro n hn
    obtain ⟨hmem, heq⟩ := mem_file hn
    exact ⟨hlt (h.namespaces _ hmem), heq ▸ trunc32_lt _⟩

/-- What saving and loading keeps of a database. -/
structure SameDatabase (db db' : Database) : Prop where
  dbFilePath : db'.metadata.dbFilePath = db.metadata.dbFilePath
  metaFilePath : db'.metadata.metaFilePath = db.metadata.metaFilePath
  namespaces : ∀ name, name ∈ db'.namespaces ↔ name ∈ db.namespaces
  counted : db'.metadata.namespaceCount = db'.namespaces.entries.length

abbrev Entry := Sigma fun _ : Bytes => Database

theorem save_all (it : Iteration) (fs : FileSystem) {entries : List Entry}
    (hnodup : (entries.map fun e => e.2.metadata.metaFilePath).Nodup)
    (hwritable : ∀ e ∈ entries, fs.writable e.2.metadata.metaFilePath = true) :
    ∃ fs', entries.foldlM (fun fs e => saveDatabaseMetadata it fs e.2) fs = .ok fs' ∧
      (∀ e ∈ entries, fs'.content e.2.metadata.metaFilePath = some (encodeMetadata it e.2)) ∧
      ∀ path, (∀ e ∈ entries, e.2.metadata.metaFilePath ≠ path) →
        fs'.content path = fs.content path := by
  induction entries generalizing fs with
  | nil => exact ⟨fs, rfl, by simp, fun _ _ => rfl⟩
  | cons e entries ih =>
      rw [List.map_cons, List.nodup_cons] at hnodup
      have hsave : saveDatabaseMetadata it fs e.2 =
          .ok (fs.write e.2.metadata.metaFilePath (encodeMetadata it e.2)) := by
        rw [saveDatabaseMetadata, hwritable e List.mem_cons_self]
        rfl
      obtain ⟨fs', hrest, hsaved, hother⟩ :=
        ih (fs.write e.2.metadata.metaFilePath (encodeMetadata it e.2)) hnodup.2
          fun d hd => hwritable d (List.mem_cons_of_mem _ hd)
      refine ⟨fs', ?_, ?_, ?_⟩
      · rw [List.foldlM_cons, hsave, ok_bind, hrest]
      · intro d hd
        rcases List.mem_cons.mp hd with rfl | hd
        · rw [hother _ ?_]
          · exact Function.update_self ..
          · intro d' hd' heq
            exact hnodup.1 (List.mem_map.mpr ⟨d', hd', heq⟩)
        · exact hsaved d hd
      · intro path hpath
        rw [hother path fun d hd => hpath d (List.mem_cons_of_mem _ hd)]
        exact Function.update_of_ne (Ne.symm (hpath e List.mem_cons_self)) _ _

/-- The databases of a catalog file are put into the map one after the other. -/
theorem loadDatabases_encode (it : Iteration) (clock : Clock) (garbage : Nat → Nat)
    {fs : FileSystem} {entries : List Entry} (hkeys : (entries.map fun e => e.1).Nodup)
    (hsound : ∀ e ∈ entries, Sound limit e.1 e.2)
    (hcount : ∀ e ∈ entries, e.2.namespaces.entries.length < word32)
    (hfiles : ∀ e ∈ entries,
      fs.content e.2.metadata.metaFilePath = some (encodeMetadata it e.2))
    (i : Nat) (tail : Bytes) (databases : AList fun _ : Bytes => Database)
    (hnew : ∀ e ∈ entries, e.1 ∉ databases) :
    ∃ databases', loadDatabases limit clock garbage fs entries.length i
        (ByteReader.ofBytes ((entries.map fun e => encodeEntry e.1 e.2).flatten ++ tail)) databases =
          .ok databases' ∧
      (∀ e ∈ entries, ∃ db', databases'.lookup e.1 = some db' ∧ SameDatabase e.2 db') ∧
      ∀ name, (∀ e ∈ entries, e.1 ≠ name) → databases'.lookup name = databases.lookup name := by
  induction entries generalizing i databases with
  | nil => exact ⟨databases, rfl, by simp, fun _ _ => rfl⟩
  | cons e entries ih =>
      rw [List.map_cons, List.nodup_cons] at hkeys
      have hmem : e ∈ e :: entries := List.mem_cons_self
      have hs := hsound e hmem
      have hname : e.1.length ≤ limit.val := hs.name ▸ hs.fits.dbName
      have hfile := encodeMetadata_eq it hs.counted (hcount e hmem)
      obtain ⟨db', hload, hext⟩ := loadDatabaseMetadata_encode
        (Database.file_valid it hs.fits (hcount e hmem)) (Database.file_fits hs.fits)
        (clock.touched i) (garbage i) e.2.metadata.metaFilePath []
        (Database.make (Metadata.make e.1 e.2.metadata.dbFilePath e.2.metadata.metaFilePath
          (clock.created i)))
      rw [List.append_nil, ← hfile] at hload
      have hsame : SameDatabase e.2 db' := by
        refine ⟨hext.dbFilePath, hext.metaFilePath, ?_, hext.counted rfl⟩
        intro name
        rw [hext.mem_iff, (Database.file_names e.2).mem_iff]
        constructor
        · rintro (h | h)
          · exact h
          · cases h
        · exact .inl
      have hlookup : databases.lookup e.1 = none := AList.lookup_eq_none.mpr (hnew e hmem)
      obtain ⟨databases', hrest, hloaded, hother⟩ := ih hkeys.2
        (fun d hd => hsound d (List.mem_cons_of_mem _ hd))
        (fun d hd => hcount d (List.mem_cons_of_mem _ hd))
        (fun d hd => hfiles d (List.mem_cons_of_mem _ hd)) (i + 1) (databases.insert e.1 db') (by
          intro d hd hin
          rcases (AList.mem_insert _).mp hin with heq | hold
          · exact hkeys.1 (List.mem_map.mpr ⟨d, hd, heq⟩)
          · exact hnew d (List.mem_cons_of_mem _ hd) hold)
      refine ⟨databases', ?_, ?_, ?_⟩
      · simp only [List.map_cons, List.flatten_cons, List.length_cons, encodeEntry,
          List.append_assoc, loadDatabases, readString_writeString hname,
          readString_writeString hs.fits.dbFilePath, readString_writeString hs.fits.metaFilePath,
          ok_bind, hfiles e hmem, hload, hlookup]
        simpa only [encodeEntry, List.append_assoc] using hrest
      · intro d hd
        rcases List.mem_cons.mp hd with rfl | hd
        · refine ⟨db', ?_, hsame⟩
          rw [hother d.1 ?_, AList.lookup_insert]
          intro d' hd' heq
          exact hkeys.1 (List.mem_map.mpr ⟨d', hd', heq⟩)
        · exact hloaded d hd
      · intro name hne
        rw [hother name fun d hd => hne d (List.mem_cons_of_mem _ hd),
          AList.lookup_insert_ne (Ne.symm (hne e hmem))]

/-- A catalog file as `flush` writes it is accepted. -/
theorem load_encode {clock : Clock} {garbage : Nat → Nat} {fs : FileSystem} {path dir : Bytes}
    {entries : List Entry} (hlen : entries.length < word32)
    (hcontent : fs.content path = some (encodeCatalog entries)) :
    Catalog.load limit clock garbage fs path dir = (do
      let databases ← loadDatabases limit clock garbage fs entries.length 0
        (ByteReader.ofBytes (entries.map fun e => encodeEntry e.1 e.2).flatten) ∅
      .ok { catalogFilePath := path, dbDir := dir, databases }) := by
  have hmagic : magicNumber < 256 ^ 4 := by decide
  have hversion : databaseVersion < 256 ^ 4 := by decide
  have hcount : entries.length < 256 ^ 4 := hlen
  simp only [Catalog.load, hcontent, encodeCatalog, List.append_assoc,
    ByteReader.readWord_append hmagic, ByteReader.readWord_append hversion,
    ByteReader.readWord_append hcount, ByteReader.good_ofBytes, Bool.not_true, ne_eq,
    not_true_eq_false, decide_false, Bool.or_self, Bool.false_eq_true, if_false,
    trunc32_of_lt hlen]
  rfl

/-! ## The round trip -/

/-- Every database has a metadata file of its own, and none has the catalog file. -/
structure Catalog.DistinctFiles (c : Catalog) : Prop where
  inj : ∀ name name' db db', c.databases.lookup name = some db →
    c.databases.lookup name' = some db' →
    db.metadata.metaFilePath = db'.metadata.metaFilePath → name = name'
  ne : ∀ name db, c.databases.lookup name = some db →
    db.metadata.metaFilePath ≠ c.catalogFilePath

theorem Catalog.mem_order {c : Catalog} {e : Entry} :
    e ∈ it.order c.databases.entries ↔ c.databases.lookup e.1 = some e.2 := by
  rw [(it.perm _).mem_iff]
  exact AList.mem_lookup_iff.symm

theorem Catalog.nodup_order_keys (c : Catalog) :
    ((it.order c.databases.entries).map fun e => e.1).Nodup :=
  ((it.perm c.databases.entries).map _).nodup_iff.mpr c.databases.keys_nodup

theorem Catalog.DistinctFiles.nodup {c : Catalog} (h : c.DistinctFiles) :
    ((it.order c.databases.entries).map fun e => e.2.metadata.metaFilePath).Nodup := by
  have hnodup : (it.order c.databases.entries).Nodup := c.nodup_order_keys.of_map
  refine hnodup.map_on ?_
  rintro ⟨name, db⟩ he ⟨name', db'⟩ he' heq
  have hl := Catalog.mem_order.mp he
  have hl' := Catalog.mem_order.mp he'
  obtain rfl := h.inj name name' db db' hl hl' heq
  rw [hl] at hl'
  cases hl'
  rfl

/-- What is flushed is what a new catalog over the same file loads. -/
theorem load_flush {path dir : Bytes} {c : Catalog} (h : Reachable limit path dir c)
    (hfiles : c.DistinctFiles) (hdatabases : c.databases.entries.length < word32)
    (hnamespaces : ∀ name db, c.databases.lookup name = some db →
      db.namespaces.entries.length < word32)
    (fs : FileSystem) (hwritable : fs.writable path = true)
    (hwritable' : ∀ name db, c.databases.lookup name = some db →
      fs.writable db.metadata.metaFilePath = true)
    (it : Iteration) (clock : Clock) (garbage : Nat → Nat) (dir' : Bytes) :
    ∃ fs' c', c.flush it fs = .ok fs' ∧
      Catalog.load limit clock garbage fs' path dir' = .ok c' ∧
      ∀ name, Option.Rel SameDatabase (c.databases.lookup name) (c'.databases.lookup name) := by
  obtain ⟨hpath, hsound⟩ := h.sound
  have hne := hfiles.ne
  rw [hpath] at hne
  obtain ⟨fs₁, hsave, hsaved, hother⟩ := save_all it fs hfiles.nodup fun e he =>
    hwritable' e.1 e.2 (Catalog.mem_order.mp he)
  have hread : ∀ e ∈ it.order c.databases.entries,
      (fs₁.write path (encodeCatalog (it.order c.databases.entries))).content
        e.2.metadata.metaFilePath = some (encodeMetadata it e.2) := by
    intro e he
    rw [← hsaved e he]
    exact Function.update_of_ne (hne e.1 e.2 (Catalog.mem_order.mp he)) _ _
  obtain ⟨databases, hload, hloaded, hrest⟩ := loadDatabases_encode it clock garbage
    c.nodup_order_keys
    (fun e he => hsound e.1 e.2 (Catalog.mem_order.mp he))
    (fun e he => hnamespaces e.1 e.2 (Catalog.mem_order.mp he)) hread 0 [] ∅
    (fun _ _ hin => by cases hin)
  refine ⟨fs₁.write path (encodeCatalog (it.order c.databases.entries)),
    { catalogFilePath := path, dbDir := dir', databases }, ?_, ?_, ?_⟩
  · simp only [Catalog.flush, hpath, hwritable, Bool.not_true, Bool.false_eq_true, if_false, hsave,
      ok_bind]
    rfl
  · have hcontent : (fs₁.write path (encodeCatalog (it.order c.databases.entries))).content path =
        some (encodeCatalog (it.order c.databases.entries)) := Function.update_self ..
    have hlen : (it.order c.databases.entries).length < word32 := by
      rwa [(it.perm _).length_eq]
    rw [List.append_nil] at hload
    rw [load_encode hlen hcontent, hload, ok_bind]
  · intro name
    cases hl : c.databases.lookup name with
    | none =>
        have hnone : databases.lookup name = none := by
          rw [hrest name, AList.lookup_empty]
          rintro e he rfl
          rw [Catalog.mem_order.mp he] at hl
          cases hl
        simp only [hnone]
        exact .none
    | some db =>
        obtain ⟨db', hdb', hsame⟩ := hloaded ⟨name, db⟩ (Catalog.mem_order.mpr hl)
        simp only at hdb'
        simp only [hdb']
        exact .some hsame

theorem lookup_insert_empty {k name : Bytes} {v db : Database}
    (h : (AList.insert k v (∅ : AList fun _ : Bytes => Database)).lookup name = some db) :
    name = k ∧ db = v := by
  by_cases hk : name = k
  · subst hk
    rw [AList.lookup_insert] at h
    exact ⟨rfl, (Option.some.inj h).symm⟩
  · rw [AList.lookup_insert_ne hk, AList.lookup_empty] at h
    cases h

/-- A catalog with the one database `shop`. -/
theorem load_flush_shop :
    ∃ c fs' c', (Catalog.empty (ascii "catalog.cat") (ascii "db")).createDatabase
        ⟨100, by decide, by decide⟩ (ascii "shop") true 1 2 = .ok (true, c) ∧
      c.flush ⟨id, List.Perm.refl⟩ ⟨fun _ => none, fun _ => true⟩ = .ok fs' ∧
      Catalog.load ⟨100, by decide, by decide⟩ ⟨fun _ => 3, fun _ _ => 4⟩ (fun _ => 0) fs'
        (ascii "catalog.cat") (ascii "db") = .ok c' ∧
      ∀ name, Option.Rel SameDatabase (c.databases.lookup name) (c'.databases.lookup name) := by
  have hcreate : (Catalog.empty (ascii "catalog.cat") (ascii "db")).createDatabase
      ⟨100, by decide, by decide⟩ (ascii "shop") true 1 2 =
        .ok (true, { catalogFilePath := ascii "catalog.cat", dbDir := ascii "db",
                     databases := AList.insert (ascii "shop")
                      ((Database.make (Metadata.make (ascii "shop") (ascii "db/shop.db")
                        (ascii "db/shop.meta") 1)).createNamespace (ascii "public") 2) ∅ }) := by
    rfl
  obtain ⟨fs', c', hrest⟩ := load_flush (.createDatabase .empty hcreate)
    (⟨fun name name' db db' h h' _ =>
        (lookup_insert_empty h).1.trans (lookup_insert_empty h').1.symm,
      fun name db h => by rw [(lookup_insert_empty h).2]; decide⟩)
    (by decide) (fun name db h => by rw [(lookup_insert_empty h).2]; decide)
    ⟨fun _ => none, fun _ => true⟩ rfl (fun _ _ _ => rfl) ⟨id, List.Perm.refl⟩
    ⟨fun _ => 3, fun _ _ => 4⟩ (fun _ => 0) (ascii "db")
  exact ⟨_, fs', c', hcreate, hrest⟩

end TurtleDb.Catalog
