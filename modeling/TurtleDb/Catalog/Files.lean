import TurtleDb.Catalog.Catalog
import TurtleDb.Lib.PrefixCode

/-!
# The files of a catalog

What a catalog file and a metadata file say, as the writer lays it out. Bytes decode to a content if
they begin with its encoding; more bytes may follow, which nobody reads.
-/

namespace TurtleDb.Catalog

open TurtleDb.Lib

/-! ## Metadata files -/

structure MetadataFile where
  dbName : Bytes
  metaFilePath : Bytes
  dbFilePath : Bytes
  createdAt : UInt64
  updatedAt : UInt64
  /-- The names of the namespaces, each with its count of tables. -/
  namespaces : List (Bytes × Nat)

def encodeNamed (n : Bytes × Nat) : Bytes := writeString n.1 ++ leBytes 4 n.2

namespace MetadataFile

def encode (f : MetadataFile) : Bytes :=
  leBytes 4 magicNumber ++ writeString f.dbName ++ writeString f.metaFilePath ++
    writeString f.dbFilePath ++ leBytes 8 f.createdAt.toNat ++ leBytes 8 f.updatedAt.toNat ++
    leBytes 4 f.namespaces.length ++ (f.namespaces.map encodeNamed).flatten

/-- Lengths and counts fit the words they are written in. -/
structure Valid (f : MetadataFile) : Prop where
  dbName : f.dbName.length < 256 ^ 8
  metaFilePath : f.metaFilePath.length < 256 ^ 8
  dbFilePath : f.dbFilePath.length < 256 ^ 8
  count : f.namespaces.length < 256 ^ 4
  namespaces : ∀ n ∈ f.namespaces, n.1.length < 256 ^ 8 ∧ n.2 < 256 ^ 4

end MetadataFile

def DecodesMetadata (content : Option Bytes) (f : MetadataFile) : Prop :=
  f.Valid ∧ ∃ tail, content = some (f.encode ++ tail)

theorem writeString_prefixCode : PrefixCode (fun s : Bytes => s.length < 256 ^ 8) writeString :=
  PrefixCode.counted 8

theorem encodeNamed_prefixCode :
    PrefixCode (fun n : Bytes × Nat => n.1.length < 256 ^ 8 ∧ n.2 < 256 ^ 4) encodeNamed :=
  writeString_prefixCode.prod (PrefixCode.word 4)

theorem DecodesMetadata.unique {content : Option Bytes} {f g : MetadataFile}
    (hf : DecodesMetadata content f) (hg : DecodesMetadata content g) : f = g := by
  obtain ⟨hfv, s, hs⟩ := hf
  obtain ⟨hgv, t, ht⟩ := hg
  have heq := Option.some.inj (hs.symm.trans ht)
  simp only [MetadataFile.encode, List.append_assoc] at heq
  obtain ⟨-, heq⟩ := PrefixCode.word 4 _ _ _ _ (by decide) (by decide) heq
  obtain ⟨hname, heq⟩ := writeString_prefixCode _ _ _ _ hfv.dbName hgv.dbName heq
  obtain ⟨hmeta, heq⟩ := writeString_prefixCode _ _ _ _ hfv.metaFilePath hgv.metaFilePath heq
  obtain ⟨hdb, heq⟩ := writeString_prefixCode _ _ _ _ hfv.dbFilePath hgv.dbFilePath heq
  obtain ⟨hcreated, heq⟩ := PrefixCode.word 8 _ _ _ _ f.createdAt.toNat_lt g.createdAt.toNat_lt heq
  obtain ⟨hupdated, heq⟩ := PrefixCode.word 8 _ _ _ _ f.updatedAt.toNat_lt g.updatedAt.toNat_lt heq
  obtain ⟨hcount, heq⟩ := PrefixCode.word 4 _ _ _ _ hfv.count hgv.count heq
  obtain ⟨hns, -⟩ := encodeNamed_prefixCode.list hcount hfv.namespaces hgv.namespaces heq
  cases f
  cases g
  simp_all [UInt64.toNat_inj]

/-! ## Catalog files -/

structure CatalogEntry where
  dbName : Bytes
  dbFilePath : Bytes
  metaFilePath : Bytes

namespace CatalogEntry

def encode (e : CatalogEntry) : Bytes :=
  writeString e.dbName ++ writeString e.dbFilePath ++ writeString e.metaFilePath

structure Valid (e : CatalogEntry) : Prop where
  dbName : e.dbName.length < 256 ^ 8
  dbFilePath : e.dbFilePath.length < 256 ^ 8
  metaFilePath : e.metaFilePath.length < 256 ^ 8

theorem encode_prefixCode : PrefixCode Valid encode := by
  rintro ⟨a, b, c⟩ ⟨d, e, f⟩ s t ha hd heq
  simp only [encode, List.append_assoc] at heq
  obtain ⟨rfl, hpaths⟩ := writeString_prefixCode a d _ _ ha.dbName hd.dbName heq
  obtain ⟨rfl, hpath⟩ := writeString_prefixCode b e _ _ ha.dbFilePath hd.dbFilePath hpaths
  obtain ⟨rfl, hrest⟩ := writeString_prefixCode c f _ _ ha.metaFilePath hd.metaFilePath hpath
  exact ⟨rfl, hrest⟩

end CatalogEntry

def encodeEntries (es : List CatalogEntry) : Bytes :=
  leBytes 4 magicNumber ++ leBytes 4 databaseVersion ++ leBytes 4 es.length ++
    (es.map CatalogEntry.encode).flatten

def DecodesCatalog (content : Option Bytes) (es : List CatalogEntry) : Prop :=
  es.length < 256 ^ 4 ∧ (∀ e ∈ es, e.Valid) ∧ ∃ tail, content = some (encodeEntries es ++ tail)

theorem DecodesCatalog.unique {content : Option Bytes} {es ds : List CatalogEntry}
    (he : DecodesCatalog content es) (hd : DecodesCatalog content ds) : es = ds := by
  obtain ⟨helen, hev, s, hs⟩ := he
  obtain ⟨hdlen, hdv, t, ht⟩ := hd
  have heq := Option.some.inj (hs.symm.trans ht)
  simp only [encodeEntries, List.append_assoc] at heq
  obtain ⟨-, heq⟩ := PrefixCode.word 4 _ _ _ _ (by decide) (by decide) heq
  obtain ⟨-, heq⟩ := PrefixCode.word 4 _ _ _ _ (by decide) (by decide) heq
  obtain ⟨hlen, heq⟩ := PrefixCode.word 4 _ _ _ _ helen hdlen heq
  exact (CatalogEntry.encode_prefixCode.list hlen hev hdv heq).1

end TurtleDb.Catalog
