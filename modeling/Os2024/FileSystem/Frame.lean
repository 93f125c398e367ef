import Os2024.FileSystem.Entries
import Os2024.FileSystem.Format
import Os2024.FileSystem.ReadEffect

/-! # What a change of the volume leaves alone

A live entry is kept when its slot, its chain and its clusters are; only the
cluster of the directory that is being changed is exempt, since linking and
unlinking rewrite one slot of it. A file never has such a cluster on its chain, so
a kept file keeps its contents.
-/

namespace Os2024.FileSystem
open Library.PackedLayout Library.LinkedCells

namespace Volume

/-- The live entry in slot `i` of `d` survives a change of the table of `p`. -/
structure Kept (v v' : Volume) (p d : Cell) (i : Fin 64) : Prop where
  entry : v'.LiveEntry d i
  same : v'.table d i = v.table d i
  chain : ∀ l, v.EntryChain (v.table d i) l → v'.EntryChain (v'.table d i) l
  data : ∀ l, v.EntryChain (v.table d i) l → ∀ c ∈ l, c ≠ p → v' c = v c

variable {v v' v'' : Volume} {p d : Cell} {i : Fin 64}

theorem Kept.trans (h : v.Kept v' p d i) (h' : v'.Kept v'' p d i) : v.Kept v'' p d i where
  entry := h'.entry
  same := h'.same.trans h.same
  chain l hl := h'.chain l (h.chain l hl)
  data l hl c hc hcp := (h'.data l (h.chain l hl) c hc hcp).trans (h.data l hl c hc hcp)

theorem Agrees.kept (h : v.Agrees v') (hv : v.WellFormed) (p : Cell) (he : v.LiveEntry d i) :
    v.Kept v' p d i where
  entry := (h.liveEntry_iff hv d i).mp he
  same := by rw [h.table_eq hv he.existing]
  chain l := h.chain_of_liveEntry hv he
  data l hl c hc _ := h.clusters c (.inr (.inr ⟨d, i, l, he, hl, hc⟩))

theorem Fits.kept {k : Fin 64} {e : DirectoryEntry} {m : List Cell} (f : v.Fits p k e m)
    (hv : v.WellFormed) (he : v.LiveEntry d i) : v.Kept (v.setEntry p k e) p d i where
  entry := (f.liveEntry_iff hv d i).mpr (.inl he)
  same := f.table_of_live he.live
  chain l hl := by rwa [entryChain_setEntry (f.parent_ne_one hv), f.table_of_live he.live]
  data _ _ _ _ hcp := setEntry_of_ne hcp

theorem Removable.kept {k : Fin 64} (r : v.Removable p k) (hv : v.WellFormed) (he : v.LiveEntry d i)
    (hne : (d, i) ≠ (p, k)) : v.Kept (v.setEntry p k .zero) p d i where
  entry := (r.liveEntry_iff hv d i).mpr ⟨he, hne⟩
  same := table_setEntry_of_ne hne
  chain l hl := by rwa [entryChain_setEntry (r.parent_ne_one hv), table_setEntry_of_ne hne]
  data _ _ _ _ hcp := setEntry_of_ne hcp

/-- No cluster of a file is a directory. -/
theorem WellFormed.file_not_existing (hv : v.WellFormed) (he : v.LiveEntry d i)
    (hfile : ¬(v.table d i).IsFolder) {l : List Cell} (hl : v.EntryChain (v.table d i) l) {c : Cell}
    (hc : c ∈ l) : ¬v.Existing c := by
  intro hex
  have hge := hv.owned_ge ⟨d, i, l, he, hl, hc⟩
  cases hex with
  | refl => exact absurd hge (by decide)
  | @tail b _ hb hbc =>
    obtain ⟨j, hj, hlive, hfolder, hcluster⟩ := hbc
    have he' : v.LiveEntry b j := ⟨hb, hj, hlive⟩
    obtain ⟨m, hm, hne, -⟩ := hv.chain he'
    have hcm := hm.head_mem hne hcluster
    by_cases hslot : (b, j) = (d, i)
    · obtain ⟨rfl, rfl⟩ := Prod.mk.inj hslot
      exact hfile hfolder
    · exact hv.disjoint he' he hm hl hslot hcm hc

theorem Kept.contents (h : v.Kept v' p d i) (hv : v.WellFormed) (hp : v.Existing p)
    (he : v.LiveEntry d i) (hfile : ¬(v.table d i).IsFolder) {l : List Cell}
    (hl : v.EntryChain (v.table d i) l) (j : ℕ) : v'.contents l j = v.contents l j := by
  refine contents_congr (fun c hc => h.data l hl c hc ?_) j
  rintro rfl
  exact hv.file_not_existing he hfile hl hc hp

end Volume

end Os2024.FileSystem
