import Os2024.Library.Runs
import Os2024.FileSystem.DeleteEffect
import Os2024.FileSystem.Frame

/-! # Calls of the file system and their effect

A call either changes nothing, or links the entry it names, or unlinks it. Every
invariant of the runs is read off these three cases.
-/

namespace Os2024.FileSystem
open Library.PackedLayout Library.LinkedCells Library.Runs

inductive Call where
  | read (request : DriverRequest)
  | write (mem : Memory) (request : DriverRequest)
  | delete (request : DriverRequest)

namespace Call

def request : Call → DriverRequest
  | read request => request
  | write _ request => request
  | delete request => request

def exec (call : Call) (s : Storage) : Except Fault (Int8 × Storage) :=
  match call with
  | read request =>
    match FileSystem.read request s with
    | .error f => .error f
    | .ok (r, _) => .ok (r, s)
  | write mem request => FileSystem.write mem request s
  | delete request => FileSystem.delete request s

def Deletes (call : Call) (request : DriverRequest) : Prop :=
  ∃ r, call = delete r ∧ r.parentClusterNumber = request.parentClusterNumber ∧
    r.name = request.name ∧ r.ext = request.ext

end Call

/-- What a call with parent `p` that returns has done to the storage. -/
inductive Effect (p : Cell) : Call → Storage → Storage → Prop
  | unchanged (call : Call) (s : Storage) : Effect p call s s
  | linked {mem : Memory} {request : DriverRequest} {s : Storage} {k : Fin 64} {c : Cell}
      {rest : List Cell} (w : Written request s p k c rest) :
      Effect p (.write mem request) s (writeResult mem request s p k c rest)
  | unlinked {request : DriverRequest} {s s' : Storage} {k : Fin 64} {l : List Cell}
      (hm : request.Matches (s.volume.table p k)) (w : Deleted s s' p k l) :
      Effect p (.delete request) s s'

/-- No free slot, outside the two link slots, carries the name. -/
def DriverRequest.Clear (request : DriverRequest) (v : Volume) (p : Cell) : Prop :=
  ∀ i, 2 ≤ i → request.Matches (v.table p i) → (v.table p i).Live

/-- Free slots are zeroed, so they only carry the all-zero name. -/
theorem DriverRequest.Named.clear {request : DriverRequest} (hn : request.Named) {v : Volume}
    (hv : v.WellFormed) {p : Cell} (hp : v.Existing p) : request.Clear v p := by
  intro i _ hm
  by_contra hfree
  rw [hv.free_zero hp i hfree] at hm
  exact hn hm

/-- Only a name that is not all zero gets written: a free slot would carry the other one. -/
theorem Written.named {request : DriverRequest} {s : Storage} {p : Cell} {k : Fin 64} {c : Cell}
    {rest : List Cell} (w : Written request s p k c rest) (hs : s.Consistent)
    (hp : s.volume.Existing p) : request.Named := by
  intro hzero
  refine w.fresh k ?_
  rw [hs.wellFormed.free_zero hp k w.free]
  exact hzero

/-- The step lemma behind every run: what a call that returns has done. -/
theorem exec_effect {call : Call} {s s' : Storage} {r : Int8} {p : Cell} (hs : s.Consistent)
    (hp : s.volume.Existing p) (hreq : call.request.parentClusterNumber = p.number)
    (hclear : ∀ request, call = .delete request → request.Clear s.volume p)
    (h : call.exec s = .ok (r, s')) : Effect p call s s' := by
  cases call with
  | read request =>
    rw [Call.exec] at h
    cases hread : read request s with
    | error f =>
      rw [hread] at h
      cases h
    | ok out =>
      rw [hread] at h
      obtain ⟨-, rfl⟩ := Prod.mk.inj (Except.ok.inj h)
      exact .unchanged _ _
  | write mem request =>
    rw [Call.exec] at h
    rcases write_cases hreq h with ⟨rfl, -⟩ | ⟨-, k, c, rest, hw, rfl⟩
    · exact .unchanged _ _
    · exact .linked hw
  | delete request =>
    rw [Call.exec] at h
    rcases delete_cases hs hp hreq (hclear request rfl) with ⟨hd, -⟩ | ⟨k, -, hm, hd⟩
    · obtain ⟨-, rfl⟩ := Prod.mk.inj (Except.ok.inj (h.symm.trans hd))
      exact .unchanged _ _
    · rcases hd with hd | ⟨l, s₁, hd, hdel⟩
      · obtain ⟨-, rfl⟩ := Prod.mk.inj (Except.ok.inj (h.symm.trans hd))
        exact .unchanged _ _
      · obtain ⟨-, rfl⟩ := Prod.mk.inj (Except.ok.inj (h.symm.trans hd))
        exact .unlinked hm hdel

/-- What the disk means at some moment of a call that started in `s`: everything in use is as
before, or the new entry is linked, or the deleted entry is unlinked. -/
inductive Change (p : Cell) : Call → Storage → Volume → Prop
  | before (call : Call) {s : Storage} {v : Volume} (h : s.volume.Agrees v) : Change p call s v
  | linked {mem : Memory} {request : DriverRequest} {s : Storage} {k : Fin 64} {c : Cell}
      {rest : List Cell} (w : Written request s p k c rest) :
      Change p (.write mem request) s (writeResult mem request s p k c rest).volume
  | unlinked {request : DriverRequest} {s : Storage} {v : Volume} {k : Fin 64}
      (hm : request.Matches (s.volume.table p k)) (r : s.volume.Removable p k)
      (h : (s.volume.setEntry p k .zero).Agrees v) : Change p (.delete request) s v

namespace Change
variable {p : Cell} {call : Call} {s : Storage} {v : Volume}

theorem wellFormed (h : Change p call s v) (hs : s.Consistent) (hp : s.volume.Existing p) :
    v.WellFormed := by
  cases h with
  | before _ h => exact h.wellFormed hs.wellFormed
  | linked w => exact (w.consistent hs hp _).wellFormed
  | unlinked _ r h => exact h.wellFormed (r.wellFormed hs.wellFormed)

theorem boot (h : Change p call s v) (hs : s.Consistent) (hp : s.volume.Existing p) :
    v 0 = s.volume 0 := by
  have h0 : (0 : Cell) ≠ p := by
    rintro rfl
    exact absurd (hs.wellFormed.existing_ge hp) (by decide)
  cases h with
  | before _ h => exact h.clusters 0 (.inl rfl)
  | @linked mem _ _ _ _ _ w =>
    rw [w.volume hs hp, Volume.setEntry_of_ne h0, (w.agrees hs mem).clusters 0 (.inl rfl)]
  | unlinked _ _ h => rw [h.clusters 0 (.inl rfl), Volume.setEntry_of_ne h0]

theorem signed (h : Change p call s v) (hs : s.Consistent) (hp : s.volume.Existing p)
    (hboot : Signed s.volume) : Signed v := by
  rw [Signed, h.boot hs hp]
  exact hboot

theorem kept (h : Change p call s v) (hs : s.Consistent) (hp : s.volume.Existing p) {d : Cell}
    {i : Fin 64} (he : s.volume.LiveEntry d i)
    (hkeep : ∀ request, call = .delete request → d = p → ¬request.Matches (s.volume.table d i)) :
    s.volume.Kept v p d i := by
  cases h with
  | before _ h => exact h.kept hs.wellFormed p he
  | @linked mem _ _ _ _ _ w =>
    have hagree := w.agrees hs mem
    have hdata := hagree.kept hs.wellFormed p he
    rw [w.volume hs hp]
    exact hdata.trans ((w.fits hs hp mem).kept (hagree.wellFormed hs.wellFormed) hdata.entry)
  | @unlinked _ _ _ k hm r h =>
    have hne : (d, i) ≠ (p, k) := by
      intro hdi
      obtain ⟨rfl, rfl⟩ := Prod.mk.inj hdi
      exact hkeep _ rfl rfl hm
    have hentry := r.kept hs.wellFormed he hne
    exact hentry.trans (h.kept (r.wellFormed hs.wellFormed) p hentry.entry)

theorem liveEntry_cases (h : Change p call s v) (hs : s.Consistent) (hp : s.volume.Existing p)
    {d : Cell} {i : Fin 64} (he : v.LiveEntry d i) :
    (s.volume.LiveEntry d i ∧ v.table d i = s.volume.table d i) ∨
      ∃ mem request c rest, call = .write mem request ∧ d = p ∧ Written request s p i c rest ∧
        v = (writeResult mem request s p i c rest).volume := by
  cases h with
  | before _ h =>
    have he' := (h.liveEntry_iff hs.wellFormed d i).mpr he
    exact .inl ⟨he', by rw [h.table_eq hs.wellFormed he'.existing]⟩
  | @linked mem request _ k c rest w =>
    have hagree := w.agrees hs mem
    have hfits := w.fits hs hp mem
    rw [w.volume hs hp] at he
    rcases (hfits.liveEntry_iff (hagree.wellFormed hs.wellFormed) d i).mp he with he | hdi
    · have he' := (hagree.liveEntry_iff hs.wellFormed d i).mpr he
      refine .inl ⟨he', ?_⟩
      rw [w.volume hs hp, hfits.table_of_live he.live, hagree.table_eq hs.wellFormed he'.existing]
    · obtain ⟨rfl, rfl⟩ := Prod.mk.inj hdi
      exact .inr ⟨mem, request, c, rest, rfl, rfl, w, rfl⟩
  | unlinked hm r h =>
    have hwell := r.wellFormed hs.wellFormed
    have he' := (h.liveEntry_iff hwell d i).mpr he
    obtain ⟨hold, hne⟩ := (r.liveEntry_iff hs.wellFormed d i).mp he'
    exact .inl ⟨hold, by rw [h.table_eq hwell he'.existing, Volume.table_setEntry_of_ne hne]⟩

/-- Of the tables of the directories at most one slot of the parent differs, and no link slot. -/
theorem tables (h : Change p call s v) (hs : s.Consistent) (hp : s.volume.Existing p) :
    ∃ k, 2 ≤ k ∧ ∀ d j, s.volume.Existing d → v.Existing d → (d, j) ≠ (p, k) →
      v.table d j = s.volume.table d j := by
  cases h with
  | before _ h => exact ⟨2, le_rfl, fun d j hd _ _ => by rw [h.table_eq hs.wellFormed hd]⟩
  | @linked mem _ _ k _ _ w =>
    refine ⟨k, w.slot_ge hs hp, fun d j hd _ hne => ?_⟩
    rw [w.volume hs hp, Volume.table_setEntry_of_ne hne, (w.agrees hs mem).table_eq hs.wellFormed hd]
  | @unlinked _ _ _ k _ r h =>
    refine ⟨k, r.entry.slot, fun d j _ hd hne => ?_⟩
    have hwell := r.wellFormed hs.wellFormed
    rw [h.table_eq hwell ((h.existing_iff hwell d).mpr hd), Volume.table_setEntry_of_ne hne]

end Change

namespace Effect
variable {p : Cell} {call : Call} {s s' : Storage}

theorem consistent (h : Effect p call s s') (hs : s.Consistent) (hp : s.volume.Existing p) :
    s'.Consistent := by
  cases h with
  | unchanged => exact hs
  | linked w => exact w.consistent hs hp _
  | unlinked _ w => exact w.consistent hs

theorem change (h : Effect p call s s') (hs : s.Consistent) : Change p call s s'.volume := by
  cases h with
  | unchanged => exact .before _ (.refl _)
  | linked w => exact .linked w
  | unlinked hm w => exact .unlinked hm w.removable (w.agrees hs)

end Effect

end Os2024.FileSystem
