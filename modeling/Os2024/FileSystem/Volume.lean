import Os2024.Library.LeafEdges
import Os2024.FileSystem.Driver

/-! # Volumes: what the clusters of a disk mean

A volume is the contents of the 512 addressable clusters. Its cluster 1 is read as
the file allocation table and any cluster can be read as a directory table. The
existing directories, the live entries and the chains of a volume are defined from
these readings alone, so they make sense for every disk, also for one that lost
power between two writes.
-/

namespace Os2024.FileSystem
open Library.PackedLayout Library.BlockStore Library.LinkedCells Library.LeafEdges Relation

abbrev Volume := Cell → Cluster

namespace Volume

def fat (v : Volume) : FileAllocationTable := fatLayout.symm (v 1)

def table (v : Volume) (d : Cell) : DirectoryTable := tableLayout.symm (v d)

/-- Directory `d` has a live subdirectory entry, outside its two link slots, for cluster `c`. -/
def Child (v : Volume) (d c : Cell) : Prop :=
  ∃ i, 2 ≤ i ∧ (v.table d i).Live ∧ (v.table d i).IsFolder ∧ (v.table d i).cluster = c.number

/-- The directories reached from the root through live subdirectory entries. -/
def Existing (v : Volume) (d : Cell) : Prop := ReflTransGen v.Child 2 d

structure LiveEntry (v : Volume) (d : Cell) (i : Fin 64) : Prop where
  existing : v.Existing d
  slot : 2 ≤ i
  live : (v.table d i).Live

/-- Following the table from the cluster of an entry visits the cells of `l` and ends. -/
def EntryChain (v : Volume) (e : DirectoryEntry) (l : List Cell) : Prop :=
  IsChain Cell.number fatEndOfFile v.fat e.cluster l

def Owned (v : Volume) (c : Cell) : Prop :=
  ∃ d i l, v.LiveEntry d i ∧ v.EntryChain (v.table d i) l ∧ c ∈ l

/-- The number of clusters the driver gives to an entry. -/
def chainLength (e : DirectoryEntry) : ℕ := if e.IsFolder then 1 else (clusterCount e.filesize).toNat

/-- The invariant of every disk the driver produces. Cells that no live entry owns are free or
leaked; nothing is said about them. -/
structure WellFormed (v : Volume) : Prop where
  reserved0 : v.fat 0 = cluster0Value
  reserved1 : v.fat 1 = cluster1Value
  rootCell : v.fat 2 = fatEndOfFile
  links : ∀ {d}, v.Existing d → (v.table d 0).Live ∧ (v.table d 1).Live
  free_zero : ∀ {d}, v.Existing d → ∀ i, ¬(v.table d i).Live → v.table d i = .zero
  names : ∀ {d}, v.Existing d → ∀ i j, 2 ≤ i → (v.table d i).Live → (v.table d j).Live →
    (v.table d i).name = (v.table d j).name → (v.table d i).ext = (v.table d j).ext → i = j
  chain : ∀ {d i}, v.LiveEntry d i → ∃ l, v.EntryChain (v.table d i) l ∧ l ≠ [] ∧
    (∀ c ∈ l, 3 ≤ c) ∧ l.length = chainLength (v.table d i)
  disjoint : ∀ {d i d' i' l l'}, v.LiveEntry d i → v.LiveEntry d' i' →
    v.EntryChain (v.table d i) l → v.EntryChain (v.table d' i') l' → (d, i) ≠ (d', i') →
    l.Disjoint l'

theorem EntryChain.unique {v : Volume} {e : DirectoryEntry} {l l' : List Cell}
    (h : v.EntryChain e l) (h' : v.EntryChain e l') : l = l' :=
  IsChain.unique Cell.number_injective Cell.number_ne_endOfFile h h'

theorem EntryChain.nodup {v : Volume} {e : DirectoryEntry} {l : List Cell}
    (h : v.EntryChain e l) : l.Nodup :=
  IsChain.nodup Cell.number_injective Cell.number_ne_endOfFile h

theorem EntryChain.head_mem {v : Volume} {e : DirectoryEntry} {l : List Cell}
    (h : v.EntryChain e l) (hl : l ≠ []) {c : Cell} (hc : e.cluster = c.number) : c ∈ l := by
  cases l with
  | nil => exact absurd rfl hl
  | cons i l =>
    obtain rfl : c = i := Cell.number_injective (hc.symm.trans h.1)
    exact List.mem_cons_self

namespace WellFormed
variable {v : Volume}

/-- Every existing directory is the root or is stored in a cluster that some entry owns. -/
theorem existing_cases (h : v.WellFormed) {d : Cell} (hd : v.Existing d) :
    d = 2 ∨ (3 ≤ d ∧ v.Owned d) := by
  cases hd with
  | refl => exact .inl rfl
  | tail hb hbd =>
    obtain ⟨i, hi, hlive, -, hc⟩ := hbd
    have he : v.LiveEntry _ i := ⟨hb, hi, hlive⟩
    obtain ⟨l, hl, hne, hge, -⟩ := h.chain he
    have hmem := hl.head_mem hne hc
    exact .inr ⟨hge _ hmem, _, i, l, he, hl, hmem⟩

theorem owned_ge (h : v.WellFormed) {c : Cell} (hc : v.Owned c) : 3 ≤ c := by
  obtain ⟨d, i, l, he, hl, hmem⟩ := hc
  obtain ⟨l', hl', -, hge, -⟩ := h.chain he
  exact hge c (hl.unique hl' ▸ hmem)

theorem existing_ge (h : v.WellFormed) {d : Cell} (hd : v.Existing d) : 2 ≤ d := by
  rcases h.existing_cases hd with rfl | ⟨hge, -⟩
  · exact le_rfl
  · exact le_trans (by decide) hge

theorem owned_ne_empty (h : v.WellFormed) {c : Cell} (hc : v.Owned c) : v.fat c ≠ fatEmptyEntry := by
  obtain ⟨d, i, l, he, hl, hmem⟩ := hc
  obtain ⟨l', hl', -, hge, -⟩ := h.chain he
  obtain rfl := hl.unique hl'
  rcases IsChain.cell hl hmem with hstop | ⟨j, hj, hnext⟩
  · rw [hstop]
    decide
  · intro h0
    have hj0 : j.number.toNat = 0 := by rw [← hnext, h0]; rfl
    have hj3 := hge j hj
    rw [Cell.number_toNat] at hj0
    have : (3 : Cell).val ≤ j.val := hj3
    omega

/-- The reserved cells and those on a live chain are never free. -/
theorem used_ne_empty (h : v.WellFormed) {c : Cell} (hc : c < 3 ∨ v.Owned c) :
    v.fat c ≠ fatEmptyEntry := by
  rcases hc with hlt | ho
  · rcases (Cell.lt_three_iff c).mp hlt with rfl | rfl | rfl
    · rw [h.reserved0]
      decide
    · rw [h.reserved1]
      decide
    · rw [h.rootCell]
      decide
  · exact h.owned_ne_empty ho

theorem folder_chain (h : v.WellFormed) {d : Cell} {i : Fin 64} (he : v.LiveEntry d i)
    (hf : (v.table d i).IsFolder) : ∃ c, 3 ≤ c ∧ (v.table d i).cluster = c.number ∧
      v.fat c = fatEndOfFile ∧ v.EntryChain (v.table d i) [c] ∧ v.Existing c := by
  obtain ⟨l, hl, hne, hge, hlen⟩ := h.chain he
  rw [chainLength, if_pos hf] at hlen
  obtain ⟨c, rfl⟩ := List.length_eq_one_iff.mp hlen
  exact ⟨c, hge c List.mem_cons_self, hl.1, hl.2, hl, he.existing.tail ⟨i, he.slot, he.live, hf, hl.1⟩⟩

/-- Every existing directory ends a chain in the table, which is what the driver tests. -/
theorem existing_cell (h : v.WellFormed) {d : Cell} (hd : v.Existing d) :
    v.fat d = fatEndOfFile := by
  cases hd with
  | refl => exact h.rootCell
  | tail hb hbd =>
    obtain ⟨i, hi, hlive, hf, hc⟩ := hbd
    obtain ⟨c, -, hc', hcell, -⟩ := h.folder_chain ⟨hb, hi, hlive⟩ hf
    obtain rfl := Cell.number_injective (hc.symm.trans hc')
    exact hcell

end WellFormed

/-- The second volume differs from the first only in clusters and cells that no live entry of
the first owns. -/
structure Agrees (v v' : Volume) : Prop where
  clusters : ∀ c, c = 0 ∨ c = 2 ∨ v.Owned c → v' c = v c
  cells : ∀ c, c < 3 ∨ v.Owned c → v'.fat c = v.fat c

theorem Agrees.refl (v : Volume) : v.Agrees v := ⟨fun _ _ => rfl, fun _ _ => rfl⟩

namespace Agrees
variable {v v' : Volume}

theorem table_eq (h : v.Agrees v') (hv : v.WellFormed) {d : Cell} (hd : v.Existing d) :
    v'.table d = v.table d := by
  rw [table, table, h.clusters d]
  rcases hv.existing_cases hd with rfl | ⟨-, ho⟩
  · exact .inr (.inl rfl)
  · exact .inr (.inr ho)

theorem existing_iff (h : v.Agrees v') (hv : v.WellFormed) (d : Cell) :
    v.Existing d ↔ v'.Existing d := by
  refine reach_congr (fun a ha b => ?_) d
  rw [Child, Child, h.table_eq hv ha]

theorem liveEntry_iff (h : v.Agrees v') (hv : v.WellFormed) (d : Cell) (i : Fin 64) :
    v.LiveEntry d i ↔ v'.LiveEntry d i := by
  constructor
  · rintro ⟨hd, hi, hl⟩
    exact ⟨(h.existing_iff hv d).mp hd, hi, by rwa [h.table_eq hv hd]⟩
  · rintro ⟨hd, hi, hl⟩
    have hd' := (h.existing_iff hv d).mpr hd
    exact ⟨hd', hi, by rwa [h.table_eq hv hd'] at hl⟩

theorem chain_of_liveEntry (h : v.Agrees v') (hv : v.WellFormed) {d : Cell} {i : Fin 64}
    (he : v.LiveEntry d i) {l : List Cell} (hl : v.EntryChain (v.table d i) l) :
    v'.EntryChain (v'.table d i) l := by
  rw [h.table_eq hv he.existing]
  exact IsChain.congr hl (fun c hc => h.cells c (.inr ⟨d, i, l, he, hl, hc⟩))

theorem owned_iff (h : v.Agrees v') (hv : v.WellFormed) (c : Cell) : v.Owned c ↔ v'.Owned c := by
  constructor
  · rintro ⟨d, i, l, he, hl, hc⟩
    exact ⟨d, i, l, (h.liveEntry_iff hv d i).mp he, h.chain_of_liveEntry hv he hl, hc⟩
  · rintro ⟨d, i, l, he', hl', hc⟩
    have he := (h.liveEntry_iff hv d i).mpr he'
    obtain ⟨m, hm, -⟩ := hv.chain he
    exact ⟨d, i, m, he, hm, hl'.unique (h.chain_of_liveEntry hv he hm) ▸ hc⟩

/-- Well-formedness only looks at clusters and cells in use. -/
theorem wellFormed (h : v.Agrees v') (hv : v.WellFormed) : v'.WellFormed where
  reserved0 := (h.cells 0 (.inl (by decide))).trans hv.reserved0
  reserved1 := (h.cells 1 (.inl (by decide))).trans hv.reserved1
  rootCell := (h.cells 2 (.inl (by decide))).trans hv.rootCell
  links hd := by
    have hd' := (h.existing_iff hv _).mpr hd
    rw [h.table_eq hv hd']
    exact hv.links hd'
  free_zero hd := by
    have hd' := (h.existing_iff hv _).mpr hd
    rw [h.table_eq hv hd']
    exact hv.free_zero hd'
  names hd := by
    have hd' := (h.existing_iff hv _).mpr hd
    rw [h.table_eq hv hd']
    exact hv.names hd'
  chain he := by
    have he' := (h.liveEntry_iff hv _ _).mpr he
    obtain ⟨l, hl, hne, hge, hlen⟩ := hv.chain he'
    exact ⟨l, h.chain_of_liveEntry hv he' hl, hne, hge, by rwa [h.table_eq hv he'.existing]⟩
  disjoint he₁ he₂ hl₁ hl₂ hne := by
    have he₁' := (h.liveEntry_iff hv _ _).mpr he₁
    have he₂' := (h.liveEntry_iff hv _ _).mpr he₂
    obtain ⟨m₁, hm₁, -⟩ := hv.chain he₁'
    obtain ⟨m₂, hm₂, -⟩ := hv.chain he₂'
    rw [hl₁.unique (h.chain_of_liveEntry hv he₁' hm₁), hl₂.unique (h.chain_of_liveEntry hv he₂' hm₂)]
    exact hv.disjoint he₁' he₂' hm₁ hm₂ hne

end Agrees

end Volume

end Os2024.FileSystem
