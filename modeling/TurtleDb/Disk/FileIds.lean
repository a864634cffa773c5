import TurtleDb.Disk.FileTable

/-!
# File ids

A file id should stand for the file of one path. It does exactly when every path is created once,
nothing is opened that was not created, and no file that has been given an id is refused.
-/

namespace TurtleDb.Disk

open TurtleDb.Lib

/-! ## What an id is for -/

/-- Reading and writing pages under `fileId` read and write the file of `path`. -/
def Serves (d : DiskManager) (fileId : FileId) (path : String) : Prop :=
  ∀ page,
    (∃ pageData d', d.readPage fileId page = .ok (pageData, d') ∧
      ∀ i < pageSize, pageData.byte i = (d.fileSystem path).get (page * pageSize + i)) ∧
    ∀ pageData : PageData, ∃ d', d.writePage fileId page pageData = .ok d' ∧
      d'.fileSystem = Function.update d.fileSystem path
        ((d.fileSystem path).write (page * pageSize) pageData)

/-- The ids handed out so far, each beside the path it was returned for, tell the paths apart and
serve them. -/
def Sound (t : FileTable) (returned : List (String × FileId)) : Prop :=
  (∀ x ∈ returned, ∀ y ∈ returned, x.2 = y.2 ↔ x.1 = y.1) ∧
    ∀ x ∈ returned, Serves t.disk x.2 x.1

/-- Every call of a run keeps the ids sound. One that throws maps its path as it was mapped before,
and a path that was not mapped is refused again. -/
def Identifies (t : FileTable) (returned : List (String × FileId)) : List FileCall → Prop
  | [] => True
  | call :: calls =>
      match t.call call with
      | (.ok fileId, t') =>
          Sound t' ((call.path, fileId) :: returned) ∧
            Identifies t' ((call.path, fileId) :: returned) calls
      | (.error _, t') =>
          Sound t' returned ∧ t'.fileIdOf call.path = t.fileIdOf call.path ∧
            (t.fileIdOf call.path = none →
              ∀ os, os.opened = false → ∃ e, (t'.openFile call.path os).1 = .error e) ∧
            Identifies t' returned calls

/-- `path` has not been created, except under the very id that the counter gives it next. -/
def Fresh (created : List String) (path : String) : Prop :=
  ∀ (i : Nat) p, created[i]? = some p → (p = path ↔ i % word32 = created.length % word32)

/-- `created` lists the paths that took an id of the counter, which wraps around after `word32` of
them. Nothing takes an id twice, and nothing that took an id is refused for the first time. -/
def OrderlyFiles (created : List String) : List FileCall → Prop
  | [] => True
  | .create path os :: calls =>
      if os.prepared then
        Fresh created path ∧
          (os.opened = true ∨ word32 ≤ created.length) ∧
          OrderlyFiles (created ++ [path]) calls
      else OrderlyFiles created calls
  | .openFile path _ :: calls => path ∈ created ∧ OrderlyFiles created calls

/-! ## Streams that were never used -/

theorem serves_opened {d : DiskManager} {fileId : FileId} {path : String}
    (h : d.files fileId = some { path, stream := Fstream.opened }) : Serves d fileId path := by
  intro page
  constructor
  · refine ⟨_, _, by
      simp only [DiskManager.readPage, h, Fstream.seekg_of_ok (s := Fstream.opened) rfl,
        Fstream.good_at, Bool.not_true, Bool.false_eq_true, if_false]
      rfl, ?_⟩
    intro i hi
    exact Fstream.byte_put_read _ _ _ hi
  · intro pageData
    refine ⟨_, by
      simp only [DiskManager.writePage, DiskManager.overwrite, h,
        Fstream.seekp_of_ok (s := Fstream.opened) rfl rfl,
        Fstream.write_of_good (Fstream.good_at _), Fstream.fail, Bool.false_eq_true, if_false]
      rfl, ?_⟩
    rfl

/-- A write behind the end of the file makes the file of the path grow, so the stream is on it. -/
theorem Serves.path_eq {d : DiskManager} {fileId : FileId} {path : String}
    (h : Serves d fileId path) : ∃ file, d.files fileId = some file ∧ file.path = path := by
  obtain ⟨d', hwrite, hfs⟩ := (h (d.fileSystem path).size).2 Block.zero
  cases hfile : d.files fileId with
  | none => simp [DiskManager.writePage, DiskManager.overwrite, hfile] at hwrite
  | some file =>
      refine ⟨file, rfl, ?_⟩
      by_contra hne
      have hkeep : d'.fileSystem path = d.fileSystem path := by
        simp only [DiskManager.writePage, DiskManager.overwrite, hfile] at hwrite
        split at hwrite
        · cases hwrite
        · cases hwrite
          exact Function.update_of_ne (Ne.symm hne) _ _
      rw [hfs, Function.update_self] at hkeep
      have hsize := congrArg File.size hkeep
      have hpage : pageSize = 4096 := rfl
      simp only [File.write, hpage] at hsize
      omega

/-! ## The table after orderly calls -/

/-- The ids of `created` count up from zero, modulo the word; a path has one id, and the stream
under it is its own. -/
structure Numbers (t : FileTable) (created : List String) (returned : List (String × FileId)) :
    Prop where
  next : t.disk.nextFileId = created.length % word32
  apart : ∀ i j p q, created[i]? = some p → created[j]? = some q →
    (p = q ↔ i % word32 = j % word32)
  mapped : ∀ i p, created[i]? = some p → t.fileIdOf p = some (i % word32)
  unmapped : ∀ p, p ∉ created → t.fileIdOf p = none
  streams : ∀ i p, created[i]? = some p →
    t.disk.files (i % word32) = some { path := p, stream := Fstream.opened }
  paths : ∀ fileId file, t.disk.files fileId = some file → file.path ∈ created
  returned_iff : ∀ p fileId, (p, fileId) ∈ returned ↔
    ∃ i : Nat, created[i]? = some p ∧ fileId = i % word32

theorem numbers_init (fileSystem : String → File) : Numbers (FileTable.init fileSystem) [] [] := by
  constructor <;> simp [FileTable.init, DiskManager.init, FileTable.fileIdOf]

section
variable {t : FileTable} {created : List String} {returned : List (String × FileId)}
  {path : String} {os : OsReply}

theorem Numbers.sound (h : Numbers t created returned) : Sound t returned := by
  constructor
  · rintro ⟨p, f⟩ hx ⟨q, g⟩ hy
    obtain ⟨i, hi, rfl⟩ := (h.returned_iff p f).mp hx
    obtain ⟨j, hj, rfl⟩ := (h.returned_iff q g).mp hy
    exact (h.apart i j p q hi hj).symm
  · rintro ⟨p, f⟩ hx
    obtain ⟨i, hi, rfl⟩ := (h.returned_iff p f).mp hx
    exact serves_opened (h.streams i p hi)

theorem getElem?_snoc {α : Type} {l : List α} {a b : α} {i : Nat}
    (h : (l ++ [a])[i]? = some b) : l[i]? = some b ∨ (i = l.length ∧ b = a) := by
  rcases Nat.lt_trichotomy i l.length with hlt | heq | hgt
  · rw [List.getElem?_append_left hlt] at h
    exact .inl h
  · subst heq
    simp only [List.getElem?_concat_length, Option.some.injEq] at h
    exact .inr ⟨rfl, h.symm⟩
  · rw [List.getElem?_eq_none (by simp; omega)] at h
    cases h

theorem Numbers.apart_snoc (h : Numbers t created returned) (hfresh : Fresh created path)
    (i j : Nat) (p q : String) (hi : (created ++ [path])[i]? = some p)
    (hj : (created ++ [path])[j]? = some q) : p = q ↔ i % word32 = j % word32 := by
  rcases getElem?_snoc hi with hp | ⟨hlast, rfl⟩ <;>
    rcases getElem?_snoc hj with hq | ⟨hlast', rfl⟩
  · exact h.apart i j p q hp hq
  · rw [hlast']
    exact hfresh i p hp
  · rw [hlast, eq_comm, hfresh j q hq, eq_comm]
  · simp [hlast, hlast']

/-- What a create that takes an id does, whether the file is refused afterwards or not: the table
holds the stream of the path under the id of the path. -/
theorem Numbers.snoc (h : Numbers t created returned) (hfresh : Fresh created path)
    {t' : FileTable} {returned' : List (String × FileId)}
    (hnext : t'.disk.nextFileId = add32 t.disk.nextFileId 1)
    (hmap : t'.pathToFileId = t.pathToFileId.insert path (created.length % word32))
    (hfiles : t'.disk.files = Function.update t.disk.files (created.length % word32)
      (some { path, stream := Fstream.opened }))
    (hreturned : ∀ x, x ∈ returned' ↔ x = (path, created.length % word32) ∨ x ∈ returned) :
    Numbers t' (created ++ [path]) returned' := by
  have hlast : (created ++ [path])[created.length]? = some path := by simp
  have hold : ∀ (i : Nat) p, created[i]? = some p → (created ++ [path])[i]? = some p := by
    intro i p hi
    obtain ⟨hlt, _⟩ := List.getElem?_eq_some_iff.mp hi
    rw [List.getElem?_append_left hlt, hi]
  constructor
  case next =>
    rw [hnext, h.next, List.length_append, List.length_singleton, add32, Nat.mod_add_mod]
  case apart => exact h.apart_snoc hfresh
  case mapped =>
    intro i p hi
    simp only [FileTable.fileIdOf, hmap]
    by_cases hp : p = path
    · subst hp
      rw [AList.lookup_insert, (h.apart_snoc hfresh i created.length p p hi hlast).mp rfl]
    · rw [AList.lookup_insert_ne hp]
      rcases getElem?_snoc hi with hi | ⟨_, heq⟩
      · exact h.mapped i p hi
      · exact absurd heq hp
  case unmapped =>
    intro p hp
    have hne : p ≠ path := by rintro rfl; exact hp (by simp)
    simp only [FileTable.fileIdOf, hmap, AList.lookup_insert_ne hne]
    exact h.unmapped p fun hmem => hp (by simp [hmem])
  case streams =>
    intro i p hi
    rw [hfiles]
    by_cases hmod : i % word32 = created.length % word32
    · rw [hmod, Function.update_self,
        (h.apart_snoc hfresh i created.length p path hi hlast).mpr hmod]
    · rw [Function.update_of_ne hmod]
      rcases getElem?_snoc hi with hi | ⟨rfl, _⟩
      · exact h.streams i p hi
      · exact absurd rfl hmod
  case paths =>
    intro fileId file hf
    rw [hfiles] at hf
    by_cases hid : fileId = created.length % word32
    · subst hid
      rw [Function.update_self] at hf
      cases hf
      simp
    · rw [Function.update_of_ne hid] at hf
      exact List.mem_append_left _ (h.paths fileId file hf)
  case returned_iff =>
    intro p fileId
    rw [hreturned, h.returned_iff]
    constructor
    · rintro (heq | ⟨i, hi, hid⟩)
      · cases heq
        exact ⟨created.length, hlast, rfl⟩
      · exact ⟨i, hold i p hi, hid⟩
    · rintro ⟨i, hi, rfl⟩
      rcases getElem?_snoc hi with hi | ⟨rfl, rfl⟩
      · exact .inr ⟨i, hi, rfl⟩
      · exact .inl rfl

/-! ## One call -/

theorem createFile_unprepared (t : FileTable) (path : String) (hos : os.prepared = false) :
    ∃ e, t.createFile path os = (.error e, t) := by
  simp [FileTable.createFile, hos]

theorem createFile_opened (hp : os.prepared = true) (ho : os.opened = true) :
    t.createFile path os = (.ok t.disk.nextFileId,
      { disk := (t.disk.createFile path).2,
        pathToFileId := t.pathToFileId.insert path t.disk.nextFileId }) := by
  simp [FileTable.createFile, hp, ho, DiskManager.createFile]

theorem createFile_refused (t : FileTable) (path : String) (hp : os.prepared = true)
    (ho : os.opened = false) :
    ∃ e, t.createFile path os = (.error e,
      { disk := { t.disk with nextFileId := add32 t.disk.nextFileId 1 },
        pathToFileId := t.pathToFileId.insert path t.disk.nextFileId }) := by
  simp [FileTable.createFile, hp, ho, DiskManager.createFile]

theorem Numbers.mem_mapped (h : Numbers t created returned) (hmem : path ∈ created) :
    ∃ fileId, t.fileIdOf path = some fileId ∧ (path, fileId) ∈ returned := by
  obtain ⟨i, hi⟩ := List.getElem?_of_mem hmem
  exact ⟨_, h.mapped i path hi, (h.returned_iff _ _).mpr ⟨i, hi, rfl⟩⟩

/-- The new id is told apart from the ids returned before exactly when the path is fresh. -/
theorem Numbers.fresh_of_sound (h : Numbers t created returned) {t' : FileTable}
    (hs : Sound t' ((path, created.length % word32) :: returned)) : Fresh created path := by
  intro i p hi
  have hmem : (p, i % word32) ∈ returned := (h.returned_iff _ _).mpr ⟨i, hi, rfl⟩
  exact (hs.1 _ (List.mem_cons_of_mem _ hmem) _ List.mem_cons_self).symm

/-- A refused create leaves its path as it was mapped only when the counter has come back to the id
the path has. -/
theorem Numbers.fresh_of_kept (h : Numbers t created returned)
    (hkept : t.fileIdOf path = some (created.length % word32)) :
    Fresh created path ∧ word32 ≤ created.length := by
  have hmem : path ∈ created := by
    by_contra hmem
    rw [h.unmapped path hmem] at hkept
    cases hkept
  obtain ⟨i, hi⟩ := List.getElem?_of_mem hmem
  have hid : i % word32 = created.length % word32 := by
    rw [h.mapped i path hi] at hkept
    exact Option.some.inj hkept
  obtain ⟨hlt, _⟩ := List.getElem?_eq_some_iff.mp hi
  constructor
  · intro j p hj
    rw [h.apart j i p path hj hi, hid]
  · by_contra hle
    rw [Nat.mod_eq_of_lt (by omega), Nat.mod_eq_of_lt (by omega)] at hid
    omega

/-- Where the counter has come around, a fresh path has the next id already. -/
theorem Fresh.has_next (hfresh : Fresh created path) (hle : word32 ≤ created.length) :
    ∃ i : Nat, created[i]? = some path ∧ i % word32 = created.length % word32 := by
  have hword : 0 < word32 := by decide
  have hlt : created.length - word32 < created.length := by omega
  have hmod : (created.length - word32) % word32 = created.length % word32 :=
    (Nat.mod_eq_sub_mod hle).symm
  have hi : created[created.length - word32]? = some created[created.length - word32] :=
    List.getElem?_eq_getElem hlt
  have hpath := (hfresh _ _ hi).mpr hmod
  rw [hpath] at hi
  exact ⟨_, hi, hmod⟩

theorem Numbers.snoc_opened (h : Numbers t created returned) (hfresh : Fresh created path) :
    Numbers { disk := (t.disk.createFile path).2,
              pathToFileId := t.pathToFileId.insert path (created.length % word32) }
      (created ++ [path]) ((path, created.length % word32) :: returned) := by
  apply h.snoc hfresh rfl rfl
  · rw [← h.next]
    rfl
  · exact fun x => List.mem_cons

theorem Numbers.snoc_refused (h : Numbers t created returned) (hfresh : Fresh created path)
    (hle : word32 ≤ created.length) :
    t.fileIdOf path = some (created.length % word32) ∧
      Numbers { disk := { t.disk with nextFileId := add32 t.disk.nextFileId 1 },
                pathToFileId := t.pathToFileId.insert path t.disk.nextFileId }
        (created ++ [path]) returned := by
  obtain ⟨i, hi, hid⟩ := hfresh.has_next hle
  constructor
  · rw [h.mapped i path hi, hid]
  · apply h.snoc hfresh rfl
    · rw [h.next]
    · rw [← hid, ← h.streams i path hi, Function.update_eq_self]
    · intro x
      constructor
      · exact .inr
      · rintro (rfl | hx)
        · exact (h.returned_iff _ _).mpr ⟨i, hi, hid.symm⟩
        · exact hx

theorem Numbers.returned_again (h : Numbers t created returned) {fileId : FileId}
    (hmem : (path, fileId) ∈ returned) : Numbers t created ((path, fileId) :: returned) := by
  refine { h with returned_iff := ?_ }
  intro p f
  rw [← h.returned_iff, List.mem_cons]
  constructor
  · rintro (heq | hp)
    · cases heq
      exact hmem
    · exact hp
  · exact .inr

theorem openFile_mapped {fileId : FileId} (hmap : t.fileIdOf path = some fileId) :
    t.openFile path os = (.ok fileId, t) := by
  simp only [FileTable.openFile, hmap]

theorem openFile_unmapped (os : OsReply) (hmap : t.fileIdOf path = none) :
    ∃ newId, (t.openFile path os).2 =
        { t with pathToFileId := t.pathToFileId.insert path newId } ∧
      if os.opened then (t.openFile path os).1 = .ok newId
      else ∃ e, (t.openFile path os).1 = .error e := by
  refine ⟨trunc32 (t.pathToFileId.keys.length + 1), ?_⟩
  cases ho : os.opened <;> simp [FileTable.openFile, hmap, ho]

theorem openFile_refused (hmap : t.fileIdOf path = none) (ho : os.opened = false) :
    ∃ e, (t.openFile path os).1 = .error e := by
  obtain ⟨newId, _, hres⟩ := openFile_unmapped os hmap
  simpa [ho] using hres

/-! ## Runs -/

theorem identifies_iff (calls : List FileCall) (h : Numbers t created returned) :
    Identifies t returned calls ↔ OrderlyFiles created calls := by
  induction calls generalizing t created returned with
  | nil => exact Iff.rfl
  | cons call calls ih =>
      cases call with
      | create path os =>
          simp only [Identifies, OrderlyFiles, FileTable.call, FileCall.path]
          cases hp : os.prepared with
          | false =>
              obtain ⟨e, hcall⟩ := createFile_unprepared t path hp
              simp only [hcall, Bool.false_eq_true, if_false]
              rw [ih h]
              constructor
              · exact fun hrun => hrun.2.2.2
              · exact fun hrun =>
                  ⟨h.sound, trivial, fun hnone _ ho => openFile_refused hnone ho, hrun⟩
          | true =>
              simp only [if_true]
              cases ho : os.opened with
              | true =>
                  simp only [createFile_opened hp ho, true_or, true_and, h.next]
                  constructor
                  · rintro ⟨hs, hrun⟩
                    have hfresh := h.fresh_of_sound hs
                    exact ⟨hfresh, (ih (h.snoc_opened hfresh)).mp hrun⟩
                  · rintro ⟨hfresh, hrun⟩
                    have hnext := h.snoc_opened hfresh
                    exact ⟨hnext.sound, (ih hnext).mpr hrun⟩
              | false =>
                  obtain ⟨e, hcall⟩ := createFile_refused t path hp ho
                  simp only [hcall, Bool.false_eq_true, false_or]
                  constructor
                  · rintro ⟨_, hkept, _, hrun⟩
                    have hid : t.fileIdOf path = some (created.length % word32) := by
                      rw [← hkept, ← h.next]
                      exact AList.lookup_insert _
                    obtain ⟨hfresh, hle⟩ := h.fresh_of_kept hid
                    exact ⟨hfresh, hle, (ih (h.snoc_refused hfresh hle).2).mp hrun⟩
                  · rintro ⟨hfresh, hle, hrun⟩
                    obtain ⟨hid, hnext⟩ := h.snoc_refused hfresh hle
                    refine ⟨hnext.sound, ?_, ?_, (ih hnext).mpr hrun⟩
                    · rw [hid, ← h.next]
                      exact AList.lookup_insert _
                    · intro hnone
                      rw [hid] at hnone
                      cases hnone
      | openFile path os =>
          simp only [Identifies, OrderlyFiles, FileTable.call, FileCall.path]
          by_cases hmem : path ∈ created
          · obtain ⟨fileId, hmap, hret⟩ := h.mem_mapped hmem
            simp only [openFile_mapped hmap, hmem, true_and]
            have hagain := h.returned_again hret
            rw [ih hagain]
            exact and_iff_right hagain.sound
          · have hnone := h.unmapped path hmem
            obtain ⟨newId, htable, hres⟩ := openFile_unmapped os hnone
            simp only [hmem, false_and, iff_false]
            generalize hcall : t.openFile path os = q at htable hres
            obtain ⟨res, t'⟩ := q
            subst htable
            cases ho : os.opened with
            | true =>
                simp only [ho, if_true] at hres
                subst hres
                rintro ⟨hs, _⟩
                obtain ⟨file, hfile, hpath⟩ := (hs.2 _ List.mem_cons_self).path_eq
                have hcreated := h.paths _ _ hfile
                rw [hpath] at hcreated
                exact hmem hcreated
            | false =>
                simp only [ho, Bool.false_eq_true, if_false] at hres
                obtain ⟨e, rfl⟩ := hres
                rintro ⟨_, hkept, _⟩
                rw [hnone, FileTable.fileIdOf, AList.lookup_insert] at hkept
                cases hkept

end

/-- File ids identify files in exactly the orderly runs. -/
theorem file_ids_identify_iff (fileSystem : String → File) (calls : List FileCall) :
    Identifies (FileTable.init fileSystem) [] calls ↔ OrderlyFiles [] calls :=
  identifies_iff calls (numbers_init fileSystem)

/-- Opening a file that exists returns an id under which nothing can be read. -/
theorem open_without_create :
    ¬ Identifies (FileTable.init fun _ => File.empty) []
      [.openFile "a.db" { prepared := true, opened := true }] := by
  rw [identifies_iff _ (numbers_init _)]
  rintro ⟨hmem, _⟩
  cases hmem

end TurtleDb.Disk
