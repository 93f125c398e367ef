import Os2024.FileSystem.Volume

/-! # Linking and unlinking one directory entry

The driver changes the directory tree with a single cluster write each time: the
table of the parent with one slot replaced. Linking an entry whose chain is
already laid out in unowned cells, and unlinking an entry that is not a folder in
use, keep a volume well formed; both say exactly which directories and live
entries there are afterwards.
-/

namespace Os2024.FileSystem
open Library.PackedLayout Library.LinkedCells Library.LeafEdges Relation

namespace Volume

def setEntry (v : Volume) (p : Cell) (k : Fin 64) (e : DirectoryEntry) : Volume :=
  Function.update v p (tableLayout (Function.update (v.table p) k e))

section SetEntry
variable {v : Volume} {p : Cell} {k : Fin 64} {e : DirectoryEntry}

theorem table_setEntry (d : Cell) :
    (v.setEntry p k e).table d = if d = p then Function.update (v.table p) k e else v.table d := by
  by_cases hd : d = p
  · subst d
    simp [table, setEntry]
  · simp [table, setEntry, hd]

theorem setEntry_of_ne {d : Cell} (hd : d ≠ p) : v.setEntry p k e d = v d :=
  Function.update_of_ne hd _ _

/-- Only the table of `p` changes, and of it only slot `k`. -/
theorem table_setEntry_of_ne {d : Cell} {i : Fin 64} (h : (d, i) ≠ (p, k)) :
    (v.setEntry p k e).table d i = v.table d i := by
  rw [table_setEntry]
  split_ifs with hd
  · subst d
    exact Function.update_of_ne (fun hi => h (by rw [hi])) _ _
  · rfl

@[simp] theorem table_setEntry_self : (v.setEntry p k e).table p k = e := by
  rw [table_setEntry, if_pos rfl, Function.update_self]

theorem fat_setEntry (hp : p ≠ 1) : (v.setEntry p k e).fat = v.fat := by
  rw [fat, setEntry_of_ne (Ne.symm hp), fat]

theorem entryChain_setEntry (hp : p ≠ 1) (x : DirectoryEntry) (l : List Cell) :
    (v.setEntry p k e).EntryChain x l ↔ v.EntryChain x l := by
  rw [EntryChain, fat_setEntry hp, EntryChain]

end SetEntry

/-- A table of a folder without contents. -/
def FreshTable (t : DirectoryTable) : Prop :=
  (t 0).Live ∧ (t 1).Live ∧ ∀ i, 2 ≤ i → t i = .zero

theorem FreshTable.not_live {t : DirectoryTable} (h : FreshTable t) {i : Fin 64} (hi : 2 ≤ i) :
    ¬(t i).Live := by
  rw [h.2.2 i hi]
  decide

/-- What `write` has prepared when it writes the parent's table: slot `k` of `p` is free, the
name is new there, and the chain of `e` runs through cells that no live entry owns. -/
structure Fits (v : Volume) (p : Cell) (k : Fin 64) (e : DirectoryEntry) (l : List Cell) : Prop where
  existing : v.Existing p
  slot : 2 ≤ k
  free : ¬(v.table p k).Live
  live : e.Live
  fresh : ∀ i, (v.table p i).Live → (v.table p i).name = e.name → (v.table p i).ext ≠ e.ext
  chain : v.EntryChain e l
  ne_nil : l ≠ []
  reserved : ∀ c ∈ l, 3 ≤ c
  unowned : ∀ c ∈ l, ¬v.Owned c
  length : l.length = chainLength e
  folder : e.IsFolder → ∀ c ∈ l, FreshTable (v.table c)

namespace Fits
variable {v : Volume} {p : Cell} {k : Fin 64} {e : DirectoryEntry} {l : List Cell}

theorem folder_cell (f : v.Fits p k e l) (he : e.IsFolder) :
    ∃ c, l = [c] ∧ e.cluster = c.number ∧ FreshTable (v.table c) := by
  have hlen := f.length
  rw [chainLength, if_pos he] at hlen
  obtain ⟨c, rfl⟩ := List.length_eq_one_iff.mp hlen
  exact ⟨c, rfl, f.chain.1, f.folder he c List.mem_cons_self⟩

theorem parent_ne_one (f : v.Fits p k e l) (hv : v.WellFormed) : p ≠ 1 := by
  have hp := hv.existing_ge f.existing
  rintro rfl
  exact absurd hp (by decide)

theorem not_mem (f : v.Fits p k e l) (hv : v.WellFormed) {d : Cell} (hd : v.Existing d) : d ∉ l := by
  intro hmem
  rcases hv.existing_cases hd with rfl | ⟨-, ho⟩
  · exact absurd (f.reserved 2 hmem) (by decide)
  · exact f.unowned d hmem ho

theorem table_of_live (f : v.Fits p k e l) {d : Cell} {i : Fin 64} (hl : (v.table d i).Live) :
    (v.setEntry p k e).table d i = v.table d i := by
  refine table_setEntry_of_ne fun h => f.free ?_
  obtain ⟨rfl, rfl⟩ := Prod.mk.inj h
  exact hl

theorem child_mono (f : v.Fits p k e l) {a b : Cell} (h : v.Child a b) :
    (v.setEntry p k e).Child a b := by
  obtain ⟨i, hi, hl, hf, hc⟩ := h
  have heq := f.table_of_live hl
  exact ⟨i, hi, by rwa [heq], by rwa [heq], by rwa [heq]⟩

/-- The new entry is the only new edge of the directory tree. -/
theorem child_cases {a b : Cell} (h : (v.setEntry p k e).Child a b) :
    v.Child a b ∨ (a = p ∧ e.IsFolder ∧ e.cluster = b.number) := by
  obtain ⟨i, hi, hl, hf, hc⟩ := h
  by_cases hai : (a, i) = (p, k)
  · obtain ⟨rfl, rfl⟩ := Prod.mk.inj hai
    rw [table_setEntry_self] at hf hc
    exact .inr ⟨rfl, hf, hc⟩
  · rw [table_setEntry_of_ne hai] at hl hf hc
    exact .inl ⟨i, hi, hl, hf, hc⟩

theorem existing_mono (f : v.Fits p k e l) {d : Cell} (hd : v.Existing d) :
    (v.setEntry p k e).Existing d := ReflTransGen.mono (fun _ _ => f.child_mono) _ _ hd

/-- A new folder adds itself to the directories, a new file none. -/
theorem existing_iff (f : v.Fits p k e l) (hv : v.WellFormed) (d : Cell) :
    (v.setEntry p k e).Existing d ↔ v.Existing d ∨ (e.IsFolder ∧ e.cluster = d.number) := by
  constructor
  · intro hd
    by_cases he : e.IsFolder
    · obtain ⟨c, hlc, hc, hfresh⟩ := f.folder_cell he
      have hcp : c ≠ p := fun h => f.not_mem hv f.existing (by rw [hlc, ← h]; exact List.mem_cons_self)
      have hedges : ∀ a b, (v.setEntry p k e).Child a b → v.Child a b ∨ b = c := by
        intro a b hab
        rcases child_cases hab with hab | ⟨-, -, hb⟩
        · exact .inl hab
        · exact .inr (Cell.number_injective (hb.symm.trans hc))
      have hleaf : ∀ b, ¬(v.setEntry p k e).Child c b := by
        rintro b ⟨i, hi, hl, -⟩
        rw [table_setEntry, if_neg hcp] at hl
        exact hfresh.not_live hi hl
      rcases reach_or_leaf hedges hleaf hd with hd | rfl
      · exact .inl hd
      · exact .inr ⟨he, hc⟩
    · refine .inl (ReflTransGen.mono (fun a b hab => ?_) _ _ hd)
      exact (child_cases hab).resolve_right (fun h => he h.2.1)
  · rintro (hd | ⟨he, hc⟩)
    · exact f.existing_mono hd
    · refine (f.existing_mono f.existing).tail ⟨k, f.slot, ?_⟩
      rw [table_setEntry_self]
      exact ⟨f.live, he, hc⟩

/-- Linking adds exactly one live entry. -/
theorem liveEntry_iff (f : v.Fits p k e l) (hv : v.WellFormed) (d : Cell) (i : Fin 64) :
    (v.setEntry p k e).LiveEntry d i ↔ v.LiveEntry d i ∨ (d, i) = (p, k) := by
  constructor
  · rintro ⟨hd, hi, hl⟩
    by_cases hdi : (d, i) = (p, k)
    · exact .inr hdi
    · rw [table_setEntry_of_ne hdi] at hl
      rcases (f.existing_iff hv d).mp hd with hd | ⟨he, hc⟩
      · exact .inl ⟨hd, hi, hl⟩
      · obtain ⟨c, -, hc', hfresh⟩ := f.folder_cell he
        obtain rfl := Cell.number_injective (hc.symm.trans hc')
        exact absurd hl (hfresh.not_live hi)
  · rintro (⟨hd, hi, hl⟩ | h)
    · exact ⟨f.existing_mono hd, hi, by rwa [f.table_of_live hl]⟩
    · obtain ⟨rfl, rfl⟩ := Prod.mk.inj h
      exact ⟨f.existing_mono f.existing, f.slot, by rw [table_setEntry_self]; exact f.live⟩

theorem owned_iff (f : v.Fits p k e l) (hv : v.WellFormed) (c : Cell) :
    (v.setEntry p k e).Owned c ↔ v.Owned c ∨ c ∈ l := by
  have hp := f.parent_ne_one hv
  constructor
  · rintro ⟨d, i, m, hnew, hm, hc⟩
    rw [entryChain_setEntry hp] at hm
    rcases (f.liveEntry_iff hv d i).mp hnew with he | h
    · rw [f.table_of_live he.live] at hm
      exact .inl ⟨d, i, m, he, hm, hc⟩
    · obtain ⟨rfl, rfl⟩ := Prod.mk.inj h
      rw [table_setEntry_self] at hm
      exact .inr (hm.unique f.chain ▸ hc)
  · rintro (⟨d, i, m, he, hm, hc⟩ | hc)
    · refine ⟨d, i, m, (f.liveEntry_iff hv d i).mpr (.inl he), ?_, hc⟩
      rwa [entryChain_setEntry hp, f.table_of_live he.live]
    · refine ⟨p, k, l, (f.liveEntry_iff hv p k).mpr (.inr rfl), ?_, hc⟩
      rw [entryChain_setEntry hp, table_setEntry_self]
      exact f.chain

theorem disjoint_of_liveEntry (f : v.Fits p k e l) {d : Cell} {i : Fin 64} (he : v.LiveEntry d i)
    {m : List Cell} (hm : v.EntryChain (v.table d i) m) : m.Disjoint l :=
  fun _ hcm hcl => f.unowned _ hcl ⟨d, i, m, he, hm, hcm⟩

/-- The table of a directory after linking: an old table with at most slot `k` replaced, or the
fresh table of the new folder. -/
theorem table_cases (f : v.Fits p k e l) (hv : v.WellFormed) {d : Cell}
    (hd : (v.setEntry p k e).Existing d) :
    (v.Existing d ∧ ∀ i, (d, i) ≠ (p, k) → (v.setEntry p k e).table d i = v.table d i) ∨
      (d ≠ p ∧ FreshTable ((v.setEntry p k e).table d)) := by
  rcases (f.existing_iff hv d).mp hd with hd | ⟨he, hc⟩
  · exact .inl ⟨hd, fun i => table_setEntry_of_ne⟩
  · obtain ⟨c, hl, hc', hfresh⟩ := f.folder_cell he
    obtain rfl := Cell.number_injective (hc.symm.trans hc')
    have hdp : d ≠ p := fun h => f.not_mem hv f.existing (by rw [hl, ← h]; exact List.mem_cons_self)
    exact .inr ⟨hdp, by rwa [table_setEntry, if_neg hdp]⟩

theorem wellFormed (f : v.Fits p k e l) (hv : v.WellFormed) : (v.setEntry p k e).WellFormed where
  reserved0 := by rw [fat_setEntry (f.parent_ne_one hv), hv.reserved0]
  reserved1 := by rw [fat_setEntry (f.parent_ne_one hv), hv.reserved1]
  rootCell := by rw [fat_setEntry (f.parent_ne_one hv), hv.rootCell]
  links hd := by
    rcases f.table_cases hv hd with ⟨hd, heq⟩ | ⟨-, hfresh⟩
    · have h0 : ((0 : Fin 64) : Fin 64) ≠ k := fun h => absurd f.slot (by rw [← h]; decide)
      have h1 : ((1 : Fin 64) : Fin 64) ≠ k := fun h => absurd f.slot (by rw [← h]; decide)
      rw [heq 0 (fun h => h0 (Prod.mk.inj h).2), heq 1 (fun h => h1 (Prod.mk.inj h).2)]
      exact hv.links hd
    · exact ⟨hfresh.1, hfresh.2.1⟩
  free_zero := by
    intro d hd i hfree
    rcases f.table_cases hv hd with ⟨hd, heq⟩ | ⟨-, hfresh⟩
    · by_cases hdi : (d, i) = (p, k)
      · obtain ⟨rfl, rfl⟩ := Prod.mk.inj hdi
        rw [table_setEntry_self] at hfree
        exact absurd f.live hfree
      · rw [heq i hdi] at hfree ⊢
        exact hv.free_zero hd i hfree
    · refine hfresh.2.2 i (not_lt.mp fun hi => hfree ?_)
      have hi' : i = 0 ∨ i = 1 := by omega
      rcases hi' with rfl | rfl
      · exact hfresh.1
      · exact hfresh.2.1
  names := by
    intro d hd i j hi hli hlj hname hext
    rcases f.table_cases hv hd with ⟨hd, heq⟩ | ⟨-, hfresh⟩
    · by_cases hdi : (d, i) = (p, k) <;> by_cases hdj : (d, j) = (p, k)
      · exact (Prod.mk.inj (hdi.trans hdj.symm)).2
      · obtain ⟨rfl, rfl⟩ := Prod.mk.inj hdi
        rw [heq j hdj] at hlj hname hext
        rw [table_setEntry_self] at hname hext
        exact absurd hext.symm (f.fresh j hlj hname.symm)
      · obtain ⟨rfl, rfl⟩ := Prod.mk.inj hdj
        rw [heq i hdi] at hli hname hext
        rw [table_setEntry_self] at hname hext
        exact absurd hext (f.fresh i hli hname)
      · rw [heq i hdi] at hli hname hext
        rw [heq j hdj] at hlj hname hext
        exact hv.names hd i j hi hli hlj hname hext
    · exact absurd hli (hfresh.not_live hi)
  chain := by
    intro d i hnew
    rcases (f.liveEntry_iff hv d i).mp hnew with he | h
    · obtain ⟨m, hm, hne, hge, hlen⟩ := hv.chain he
      refine ⟨m, ?_, hne, hge, ?_⟩
      · rwa [entryChain_setEntry (f.parent_ne_one hv), f.table_of_live he.live]
      · rwa [f.table_of_live he.live]
    · obtain ⟨rfl, rfl⟩ := Prod.mk.inj h
      rw [table_setEntry_self]
      exact ⟨l, (entryChain_setEntry (f.parent_ne_one hv) e l).mpr f.chain, f.ne_nil, f.reserved,
        f.length⟩
  disjoint := by
    intro d i d' i' m m' hnew hnew' hm hm' hne
    rw [entryChain_setEntry (f.parent_ne_one hv)] at hm hm'
    rcases (f.liveEntry_iff hv d i).mp hnew with he | h <;>
      rcases (f.liveEntry_iff hv d' i').mp hnew' with he' | h'
    · rw [f.table_of_live he.live] at hm
      rw [f.table_of_live he'.live] at hm'
      exact hv.disjoint he he' hm hm' hne
    · obtain ⟨rfl, rfl⟩ := Prod.mk.inj h'
      rw [f.table_of_live he.live] at hm
      rw [table_setEntry_self] at hm'
      exact hm'.unique f.chain ▸ f.disjoint_of_liveEntry he hm
    · obtain ⟨rfl, rfl⟩ := Prod.mk.inj h
      rw [table_setEntry_self] at hm
      rw [f.table_of_live he'.live] at hm'
      exact (hm.unique f.chain ▸ f.disjoint_of_liveEntry he' hm').symm
    · exact absurd (h.trans h'.symm) hne

end Fits

/-- What `delete` has checked when it clears slot `k` of `p`: a live entry that is not a folder
with entries of its own. -/
structure Removable (v : Volume) (p : Cell) (k : Fin 64) : Prop where
  entry : v.LiveEntry p k
  empty : (v.table p k).IsFolder → ∀ c : Cell, (v.table p k).cluster = c.number →
    ∀ i, 2 ≤ i → ¬(v.table c i).Live

namespace Removable
variable {v : Volume} {p : Cell} {k : Fin 64}

theorem parent_ne_one (r : v.Removable p k) (hv : v.WellFormed) : p ≠ 1 := by
  have hp := hv.existing_ge r.entry.existing
  rintro rfl
  exact absurd hp (by decide)

theorem table_of_live {d : Cell} {i : Fin 64} (hl : ((v.setEntry p k .zero).table d i).Live) :
    (d, i) ≠ (p, k) ∧ (v.setEntry p k .zero).table d i = v.table d i := by
  by_cases h : (d, i) = (p, k)
  · obtain ⟨rfl, rfl⟩ := Prod.mk.inj h
    rw [table_setEntry_self] at hl
    exact absurd hl (by decide)
  · exact ⟨h, table_setEntry_of_ne h⟩

theorem child_mono {a b : Cell} (h : (v.setEntry p k .zero).Child a b) : v.Child a b := by
  obtain ⟨i, hi, hl, hf, hc⟩ := h
  have heq := (table_of_live hl).2
  rw [heq] at hl hf hc
  exact ⟨i, hi, hl, hf, hc⟩

theorem existing_mono {d : Cell} (hd : (v.setEntry p k .zero).Existing d) : v.Existing d :=
  ReflTransGen.mono (fun _ _ => child_mono) _ _ hd

theorem cluster_ne (r : v.Removable p k) (hv : v.WellFormed) {d : Cell} {i : Fin 64}
    (he : v.LiveEntry d i) (hne : (d, i) ≠ (p, k)) : (v.table d i).cluster ≠ (v.table p k).cluster := by
  intro heq
  obtain ⟨l, hl, hln, -⟩ := hv.chain he
  obtain ⟨m, hm, hmn, -⟩ := hv.chain r.entry
  cases m with
  | nil => exact absurd rfl hmn
  | cons c m =>
    have hc : c ∈ l := hl.head_mem hln (heq.trans hm.1)
    exact hv.disjoint he r.entry hl hm hne hc List.mem_cons_self

/-- A removed folder leaves the directories, and nothing else does. -/
theorem existing_iff (r : v.Removable p k) (hv : v.WellFormed) (d : Cell) :
    (v.setEntry p k .zero).Existing d ↔
      v.Existing d ∧ ¬((v.table p k).IsFolder ∧ (v.table p k).cluster = d.number) := by
  constructor
  · intro hd
    refine ⟨existing_mono hd, ?_⟩
    rintro ⟨hf, hc⟩
    obtain ⟨c, hge, hc', -⟩ := hv.folder_chain r.entry hf
    obtain rfl := Cell.number_injective (hc.symm.trans hc')
    cases hd with
    | refl => exact absurd hge (by decide)
    | tail hb hbd =>
      obtain ⟨i, hi, hl, -, hid⟩ := hbd
      obtain ⟨hne, heq⟩ := table_of_live hl
      rw [heq] at hl hid
      exact r.cluster_ne hv ⟨existing_mono hb, hi, hl⟩ hne (hid.trans hc.symm)
  · rintro ⟨hd, hkeep⟩
    by_cases hf : (v.table p k).IsFolder
    · obtain ⟨c, -, hc, -⟩ := hv.folder_chain r.entry hf
      have hedges : ∀ a b, v.Child a b → (v.setEntry p k .zero).Child a b ∨ b = c := by
        rintro a b ⟨i, hi, hl, hfi, hci⟩
        by_cases hai : (a, i) = (p, k)
        · obtain ⟨rfl, rfl⟩ := Prod.mk.inj hai
          exact .inr (Cell.number_injective (hci.symm.trans hc))
        · rw [← table_setEntry_of_ne (e := .zero) hai] at hl hfi hci
          exact .inl ⟨i, hi, hl, hfi, hci⟩
      have hleaf : ∀ b, ¬v.Child c b := fun b ⟨i, hi, hl, _⟩ => r.empty hf c hc i hi hl
      rcases reach_or_leaf hedges hleaf hd with hd | rfl
      · exact hd
      · exact absurd ⟨hf, hc⟩ hkeep
    · refine ReflTransGen.mono (fun a b => ?_) _ _ hd
      rintro ⟨i, hi, hl, hfi, hci⟩
      have hai : (a, i) ≠ (p, k) := by
        intro hai
        obtain ⟨rfl, rfl⟩ := Prod.mk.inj hai
        exact hf hfi
      rw [← table_setEntry_of_ne (e := .zero) hai] at hl hfi hci
      exact ⟨i, hi, hl, hfi, hci⟩

/-- Unlinking removes exactly one live entry. -/
theorem liveEntry_iff (r : v.Removable p k) (hv : v.WellFormed) (d : Cell) (i : Fin 64) :
    (v.setEntry p k .zero).LiveEntry d i ↔ v.LiveEntry d i ∧ (d, i) ≠ (p, k) := by
  constructor
  · rintro ⟨hd, hi, hl⟩
    obtain ⟨hne, heq⟩ := table_of_live hl
    rw [heq] at hl
    exact ⟨⟨existing_mono hd, hi, hl⟩, hne⟩
  · rintro ⟨⟨hd, hi, hl⟩, hne⟩
    refine ⟨(r.existing_iff hv d).mpr ⟨hd, ?_⟩, hi, by rwa [table_setEntry_of_ne hne]⟩
    rintro ⟨hf, hc⟩
    exact r.empty hf d hc i hi hl

theorem owned_iff (r : v.Removable p k) (hv : v.WellFormed) {l : List Cell}
    (hl : v.EntryChain (v.table p k) l) (c : Cell) :
    (v.setEntry p k .zero).Owned c ↔ v.Owned c ∧ c ∉ l := by
  have hp := r.parent_ne_one hv
  constructor
  · rintro ⟨d, i, m, he, hm, hc⟩
    obtain ⟨he, hne⟩ := (r.liveEntry_iff hv d i).mp he
    rw [entryChain_setEntry hp, table_setEntry_of_ne hne] at hm
    exact ⟨⟨d, i, m, he, hm, hc⟩, hv.disjoint he r.entry hm hl hne hc⟩
  · rintro ⟨⟨d, i, m, he, hm, hc⟩, hcl⟩
    have hne : (d, i) ≠ (p, k) := by
      intro h
      obtain ⟨rfl, rfl⟩ := Prod.mk.inj h
      exact hcl (hm.unique hl ▸ hc)
    refine ⟨d, i, m, (r.liveEntry_iff hv d i).mpr ⟨he, hne⟩, ?_, hc⟩
    rwa [entryChain_setEntry hp, table_setEntry_of_ne hne]

theorem wellFormed (r : v.Removable p k) (hv : v.WellFormed) :
    (v.setEntry p k .zero).WellFormed where
  reserved0 := by rw [fat_setEntry (r.parent_ne_one hv), hv.reserved0]
  reserved1 := by rw [fat_setEntry (r.parent_ne_one hv), hv.reserved1]
  rootCell := by rw [fat_setEntry (r.parent_ne_one hv), hv.rootCell]
  links := by
    intro d hd
    have hslot := r.entry.slot
    rw [table_setEntry_of_ne, table_setEntry_of_ne]
    · exact hv.links (existing_mono hd)
    all_goals
      intro h
      rw [← (Prod.mk.inj h).2] at hslot
      exact absurd hslot (by decide)
  free_zero := by
    intro d hd i hfree
    by_cases hdi : (d, i) = (p, k)
    · obtain ⟨rfl, rfl⟩ := Prod.mk.inj hdi
      exact table_setEntry_self
    · rw [table_setEntry_of_ne hdi] at hfree ⊢
      exact hv.free_zero (existing_mono hd) i hfree
  names := by
    intro d hd i j hi hli hlj hname hext
    have heqi := (table_of_live hli).2
    have heqj := (table_of_live hlj).2
    rw [heqi] at hli hname hext
    rw [heqj] at hlj hname hext
    exact hv.names (existing_mono hd) i j hi hli hlj hname hext
  chain := by
    intro d i he
    obtain ⟨he, hne⟩ := (r.liveEntry_iff hv d i).mp he
    rw [table_setEntry_of_ne hne]
    obtain ⟨m, hm, hrest⟩ := hv.chain he
    exact ⟨m, (entryChain_setEntry (r.parent_ne_one hv) _ _).mpr hm, hrest⟩
  disjoint := by
    intro d i d' i' m m' he he' hm hm' hne
    obtain ⟨he, hd⟩ := (r.liveEntry_iff hv d i).mp he
    obtain ⟨he', hd'⟩ := (r.liveEntry_iff hv d' i').mp he'
    rw [entryChain_setEntry (r.parent_ne_one hv)] at hm hm'
    rw [table_setEntry_of_ne hd] at hm
    rw [table_setEntry_of_ne hd'] at hm'
    exact hv.disjoint he he' hm hm' hne

end Removable

end Volume

end Os2024.FileSystem
