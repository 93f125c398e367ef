import Os2024.FileSystem.Entries
import Os2024.FileSystem.Journal
import Os2024.FileSystem.WriteEffect

/-! # What `delete` does

The first write of the operation clears the entry in the parent's table. From
then on the chain belongs to no live entry, so zeroing its clusters, freeing its
cells and flushing the table are harmless. Every other outcome changes nothing.
-/

namespace Os2024.FileSystem
open Library.PackedLayout Library.LinkedCells

/-- The cells of `l` are free, their clusters zeroed, and nothing else is touched. -/
structure Freed (s s' : Storage) (l : List Cell) : Prop where
  map : s'.clusterMap = clear fatEmptyEntry l s.clusterMap
  outside : ∀ c, c ∉ l → s'.volume c = s.volume c
  writes : Wrote s s' (l.map fun c => ⟨c.number, fun _ => 0⟩)

/-- The loop frees exactly the cells of the chain it starts on. -/
theorem freeChain_freed {l : List Cell} {fuel : ℕ} {v : UInt32} {s : Storage} (hne : l ≠ [])
    (hfuel : l.length ≤ fuel) (hl : IsChain Cell.number fatEndOfFile s.clusterMap v l) :
    ∃ s', freeChain fuel v s = .ok s' ∧ Freed s s' l := by
  induction l generalizing fuel v s with
  | nil => exact absurd rfl hne
  | cons c l ih =>
    obtain ⟨hc, -⟩ := List.nodup_cons.mp
      (hl.nodup Cell.number_injective Cell.number_ne_endOfFile)
    obtain ⟨rfl, hrest⟩ := hl
    rw [List.length_cons] at hfuel
    obtain ⟨fuel, rfl⟩ := Nat.exists_eq_add_of_le' (Nat.le_of_add_left_le hfuel)
    let s₀ := (s.setCell c fatEmptyEntry).writeClusters c.number (fun _ => 0)
    have hs₀ : s₀.volume = Function.update s.volume c (fun _ => 0) := volume_writeClusters _ c _
    have hw : Wrote s s₀ [⟨c.number, fun _ => 0⟩] :=
      ((Wrote.refl s).setCell c fatEmptyEntry).writeClusters _ _
    rw [freeChain, cellAt_number]
    dsimp only
    cases l with
    | nil =>
      have hstop : s.clusterMap c = fatEndOfFile := hrest
      refine ⟨s₀, if_pos hstop, ?_, ?_, hw⟩
      · rw [clear_cons]
        funext d
        exact (clear_of_not_mem List.not_mem_nil).symm
      · intro d hd
        rw [hs₀, Function.update_of_ne (fun h => hd (List.mem_singleton.mpr h))]
    | cons d l =>
      have hnext : s.clusterMap c ≠ fatEndOfFile := by
        rw [hrest.1]
        exact d.number_ne_endOfFile
      -- the rest of the chain does not pass through the cell just cleared
      have hchain : IsChain Cell.number fatEndOfFile s₀.clusterMap (s.clusterMap c) (d :: l) :=
        hrest.congr fun i hi => Function.update_of_ne (fun h : i = c => hc (h ▸ hi)) _ _
      obtain ⟨s', hs', hmap, hout, hwrites⟩ :=
        ih (List.cons_ne_nil d l) (Nat.le_of_succ_le_succ hfuel) hchain
      refine ⟨s', (if_neg hnext).trans hs', ?_, ?_, hw.trans hwrites⟩
      · exact hmap.trans (clear_cons fatEmptyEntry c (d :: l) s.clusterMap).symm
      · intro i hi
        rw [List.mem_cons, not_or] at hi
        rw [hout i hi.2, hs₀, Function.update_of_ne hi.1]

theorem mem_drop_two {i : Fin 64} : i ∈ (List.finRange 64).drop 2 ↔ 2 ≤ i := by
  revert i
  decide

theorem isEmptyFolder_iff (t : DirectoryTable) :
    isEmptyFolder t ↔ ∀ i, 2 ≤ i → ¬(t i).Live := by
  simp [isEmptyFolder, List.all_eq_true, mem_drop_two]

/-- A `delete` that returns 0 has removed the entry in slot `k` of `p`, whose chain was `l`. -/
structure Deleted (s s' : Storage) (p : Cell) (k : Fin 64) (l : List Cell) : Prop where
  removable : s.volume.Removable p k
  chain : s.volume.EntryChain (s.volume.table p k) l
  map : s'.clusterMap = clear fatEmptyEntry l s.clusterMap
  cached : s'.volume.fat = s'.clusterMap
  outside : ∀ c, c ≠ 1 → c ∉ l → s'.volume c = s.volume.setEntry p k .zero c
  writes : Wrote s s'
    (⟨p.number, tableLayout (Function.update (s.volume.table p) k .zero)⟩ ::
      (l.map fun c => ⟨c.number, fun _ => 0⟩) ++ [⟨fatClusterNumber, fatLayout s'.clusterMap⟩])

/-- Unlinking slot `k` of `p` and freeing its chain is a run of the loop from the unlinked state. -/
theorem deleted_of_freed {s s₂ : Storage} {p : Cell} {k : Fin 64} {l : List Cell}
    (hr : s.volume.Removable p k) (hl : s.volume.EntryChain (s.volume.table p k) l)
    (hf : Freed (s.writeClusters p.number
      (tableLayout (Function.update (s.volume.table p) k .zero))) s₂ l) :
    Deleted s s₂.writeFat p k l where
  removable := hr
  chain := hl
  map := hf.map
  cached := fat_writeFat s₂
  outside := by
    intro c hc1 hc
    rw [volume_writeFat_of_ne s₂ hc1, hf.outside c hc, volume_writeClusters, Volume.setEntry]
  writes := (((Wrote.refl s).writeClusters p.number _).trans hf.writes).writeFat

def Volume.InUse (v : Volume) (e : DirectoryEntry) : Prop :=
  e.IsFolder ∧ ∃ c : Cell, e.cluster = c.number ∧ ∃ j, 2 ≤ j ∧ (v.table c j).Live

theorem Volume.removable_iff {v : Volume} {p : Cell} {k : Fin 64} :
    v.Removable p k ↔ v.LiveEntry p k ∧ ¬v.InUse (v.table p k) := by
  constructor
  · rintro ⟨he, hempty⟩
    refine ⟨he, ?_⟩
    rintro ⟨hf, c, hc, j, hj, hlive⟩
    exact hempty hf c hc j hj hlive
  · rintro ⟨he, hidle⟩
    exact ⟨he, fun hf c hc j hj hlive => hidle ⟨hf, c, hc, j, hj, hlive⟩⟩

def firstMatch (request : DriverRequest) (t : DirectoryTable) : Option (Fin 64) :=
  ((List.finRange 64).drop 2).find? fun i => request.Matches (t i)

theorem firstMatch_eq_some {request : DriverRequest} {t : DirectoryTable} {k : Fin 64}
    (h : firstMatch request t = some k) : 2 ≤ k ∧ request.Matches (t k) := by
  have hsome := List.find?_some h
  exact ⟨mem_drop_two.mp (List.mem_of_find?_eq_some h), of_decide_eq_true hsome⟩

theorem firstMatch_eq_none {request : DriverRequest} {t : DirectoryTable} :
    firstMatch request t = none ↔ ∀ i, 2 ≤ i → ¬request.Matches (t i) := by
  simp [firstMatch, mem_drop_two]

section Search
variable {request : DriverRequest} {s : Storage} {p : Cell} {k : Fin 64}

theorem delete_none (hs : s.Consistent) (hp : s.volume.Existing p)
    (hreq : request.parentClusterNumber = p.number)
    (h : firstMatch request (s.volume.table p) = none) : delete request s = .ok (1, s) := by
  have hcell := hs.parent_cell hp
  rw [firstMatch] at h
  rw [delete, hreq, cellAt_number]
  dsimp only
  rw [if_neg (not_not.mpr hcell), directoryTable_number, h]

/-- A live entry that is found is removed, unless it is a folder in use. -/
theorem delete_live (hs : s.Consistent) (hp : s.volume.Existing p)
    (hreq : request.parentClusterNumber = p.number)
    (h : firstMatch request (s.volume.table p) = some k) (hlive : (s.volume.table p k).Live) :
    (s.volume.InUse (s.volume.table p k) ∧ delete request s = .ok (2, s)) ∨
      ∃ l s', delete request s = .ok (0, s') ∧ Deleted s s' p k l := by
  have hcell := hs.parent_cell hp
  have he : s.volume.LiveEntry p k := ⟨hp, (firstMatch_eq_some h).1, hlive⟩
  rw [firstMatch] at h
  rw [delete, hreq, cellAt_number]
  dsimp only
  rw [if_neg (not_not.mpr hcell), directoryTable_number, h]
  dsimp only
  split
  · rename_i hfull
    obtain ⟨c, -, hc, -⟩ := hs.wellFormed.folder_chain he hfull.1
    rw [hc, directoryTable_number, isEmptyFolder_iff] at hfull
    obtain ⟨hf, hentries⟩ := hfull
    push Not at hentries
    exact .inl ⟨⟨hf, c, hc, hentries⟩, rfl⟩
  · rename_i hempty
    have hr : s.volume.Removable p k := by
      refine ⟨he, fun hf c hc => ?_⟩
      rw [not_and, not_not, hc, directoryTable_number] at hempty
      exact (isEmptyFolder_iff _).mp (hempty hf)
    obtain ⟨l, hl, hne, -⟩ := hs.wellFormed.chain he
    have hfuel : l.length ≤ walkFuel := by
      have hcard := hl.nodup.length_le_card
      rw [Fintype.card_fin] at hcard
      exact le_trans hcard (by decide)
    have hl' : IsChain Cell.number fatEndOfFile s.clusterMap (s.volume.table p k).cluster l := by
      rw [← hs.cached]
      exact hl
    obtain ⟨s₂, hs₂, hfreed⟩ := freeChain_freed (s := s.writeClusters p.number
      (tableLayout (Function.update (s.volume.table p) k .zero))) hne hfuel hl'
    rw [hs₂]
    exact .inr ⟨l, _, rfl, deleted_of_freed hr hl hfreed⟩

/-- From a free slot the walk follows cluster 0 and then reads the table at the reserved value of
cell 0. -/
theorem delete_free (hs : s.Consistent) (hp : s.volume.Existing p)
    (hreq : request.parentClusterNumber = p.number)
    (h : firstMatch request (s.volume.table p) = some k) (hfree : ¬(s.volume.table p k).Live) :
    delete request s = .error .outOfBounds := by
  have hcell := hs.parent_cell hp
  have hcell0 : s.clusterMap 0 = cluster0Value := by
    rw [← hs.cached]
    exact hs.wellFormed.reserved0
  have hk := hs.wellFormed.free_zero hp k hfree
  have hfile : ¬(DirectoryEntry.zero.IsFolder ∧
      ¬isEmptyFolder (s.directoryTable DirectoryEntry.zero.cluster)) :=
    fun h => absurd h.1 (by decide)
  have hstart : DirectoryEntry.zero.cluster = (0 : Cell).number := by decide
  rw [firstMatch] at h
  rw [delete, hreq, cellAt_number]
  dsimp only
  rw [if_neg (not_not.mpr hcell), directoryTable_number, h]
  dsimp only
  rw [hk, if_neg hfile, hstart, show walkFuel = 513 + 1 from rfl, freeChain, cellAt_number]
  dsimp only
  rw [clusterMap_writeClusters, hcell0, if_neg (by decide)]
  rfl

end Search

/-- Every way in which `delete` returns, when no free slot carries the name. -/
inductive DeleteOutcome (request : DriverRequest) (s : Storage) (p : Cell) :
    Except Fault (Int8 × Storage) → Prop
  | notFound (hnone : ∀ i, 2 ≤ i → ¬request.Matches (s.volume.table p i)) :
      DeleteOutcome request s p (.ok (1, s))
  | inUse {k : Fin 64} (hk : 2 ≤ k) (hm : request.Matches (s.volume.table p k))
      (huse : s.volume.InUse (s.volume.table p k)) : DeleteOutcome request s p (.ok (2, s))
  | done {s' : Storage} {k : Fin 64} {l : List Cell} (hm : request.Matches (s.volume.table p k))
      (w : Deleted s s' p k l) : DeleteOutcome request s p (.ok (0, s'))

theorem delete_outcome {request : DriverRequest} {s : Storage} {p : Cell} (hs : s.Consistent)
    (hp : s.volume.Existing p) (hreq : request.parentClusterNumber = p.number)
    (hkey : ∀ i, 2 ≤ i → request.Matches (s.volume.table p i) → (s.volume.table p i).Live) :
    DeleteOutcome request s p (delete request s) := by
  cases hfind : firstMatch request (s.volume.table p) with
  | none =>
    rw [delete_none hs hp hreq hfind]
    exact .notFound (firstMatch_eq_none.mp hfind)
  | some k =>
    obtain ⟨hk, hm⟩ := firstMatch_eq_some hfind
    rcases delete_live hs hp hreq hfind (hkey k hk hm) with ⟨huse, hd⟩ | ⟨l, s', hd, w⟩
    · rw [hd]
      exact .inUse hk hm huse
    · rw [hd]
      exact .done hm w

theorem delete_cases {request : DriverRequest} {s : Storage} {p : Cell} (hs : s.Consistent)
    (hp : s.volume.Existing p) (hreq : request.parentClusterNumber = p.number)
    (hkey : ∀ i, 2 ≤ i → request.Matches (s.volume.table p i) → (s.volume.table p i).Live) :
    (delete request s = .ok (1, s) ∧ ∀ i, 2 ≤ i → ¬request.Matches (s.volume.table p i)) ∨
    ∃ k, 2 ≤ k ∧ request.Matches (s.volume.table p k) ∧
      (delete request s = .ok (2, s) ∨
        ∃ l s', delete request s = .ok (0, s') ∧ Deleted s s' p k l) := by
  have hout := delete_outcome hs hp hreq hkey
  generalize delete request s = out at hout
  cases hout with
  | notFound hnone => exact .inl ⟨rfl, hnone⟩
  | inUse hk hm => exact .inr ⟨_, hk, hm, .inl rfl⟩
  | done hm w => exact .inr ⟨_, w.removable.entry.slot, hm, .inr ⟨_, _, rfl, w⟩⟩

namespace Deleted
variable {s s' : Storage} {p : Cell} {k : Fin 64} {l : List Cell}

theorem not_mem (w : Deleted s s' p k l) (hs : s.Consistent) {c : Cell}
    (hc : c < 3 ∨ (s.volume.setEntry p k .zero).Owned c) : c ∉ l := by
  intro hmem
  rcases hc with hlt | ho
  · have hge := hs.wellFormed.owned_ge ⟨p, k, l, w.removable.entry, w.chain, hmem⟩
    exact absurd hge (not_le.mpr hlt)
  · exact ((w.removable.owned_iff hs.wellFormed w.chain c).mp ho).2 hmem

/-- After the unlinking write, the rest of the operation touches nothing in use. -/
theorem agrees (w : Deleted s s' p k l) (hs : s.Consistent) :
    (s.volume.setEntry p k .zero).Agrees s'.volume := by
  have hwell := w.removable.wellFormed hs.wellFormed
  constructor
  · rintro c (rfl | rfl | ho)
    · exact w.outside 0 (by decide) (w.not_mem hs (.inl (by decide)))
    · exact w.outside 2 (by decide) (w.not_mem hs (.inl (by decide)))
    · have hge := hwell.owned_ge ho
      refine w.outside c ?_ (w.not_mem hs (.inr ho))
      rintro rfl
      exact absurd hge (by decide)
  · intro c hc
    rw [w.cached, w.map, clear_of_not_mem (w.not_mem hs hc), ← hs.cached,
      Volume.fat_setEntry (w.removable.parent_ne_one hs.wellFormed)]

theorem harmless (w : Deleted s s' p k l) (hs : s.Consistent) :
    ∃ ws, Wrote s s' (⟨p.number, tableLayout (Function.update (s.volume.table p) k .zero)⟩ :: ws) ∧
      ∀ w ∈ ws, Harmless (s.volume.setEntry p k .zero) w := by
  refine ⟨_, w.writes, fun x hx => ?_⟩
  rcases List.mem_append.mp hx with hx | hx
  · obtain ⟨c, hc, rfl⟩ := List.mem_map.mp hx
    refine ⟨c, rfl, .inr ⟨?_, fun ho => w.not_mem hs (.inr ho) hc⟩⟩
    exact hs.wellFormed.owned_ge ⟨p, k, l, w.removable.entry, w.chain, hc⟩
  · obtain rfl := List.mem_singleton.mp hx
    refine ⟨1, rfl, .inl ⟨rfl, fun d hd => ?_⟩⟩
    rw [Equiv.symm_apply_apply, w.map, clear_of_not_mem (w.not_mem hs hd), ← hs.cached,
      Volume.fat_setEntry (w.removable.parent_ne_one hs.wellFormed)]

theorem table (w : Deleted s s' p k l) (hs : s.Consistent) (hp' : s'.volume.Existing p) :
    s'.volume.table p = Function.update (s.volume.table p) k .zero := by
  have hwell := w.removable.wellFormed hs.wellFormed
  rw [(w.agrees hs).table_eq hwell (((w.agrees hs).existing_iff hwell p).mpr hp'),
    Volume.table_setEntry, if_pos rfl]

theorem free_count (w : Deleted s s' p k l) (hs : s.Consistent) :
    (freeCells s'.clusterMap).length =
      (freeCells s.clusterMap).length + l.length := by
  have hused : ∀ c ∈ l, s.clusterMap c ≠ fatEmptyEntry := by
    intro c hc
    rw [← hs.cached]
    exact hs.wellFormed.owned_ne_empty ⟨p, k, l, w.removable.entry, w.chain, hc⟩
  rw [freeCells_length, freeCells_length, w.map]
  exact cellCount_clear w.chain.nodup hused

theorem consistent (w : Deleted s s' p k l) (hs : s.Consistent) : s'.Consistent where
  wellFormed := (w.agrees hs).wellFormed (w.removable.wellFormed hs.wellFormed)
  cached := w.cached

end Deleted

end Os2024.FileSystem
