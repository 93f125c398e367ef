import Os2024.FileSystem.Links

/-! # Renaming and moving entries

Renaming changes the name of one entry and, for a folder, of its own slot 0. Moving
takes an entry out of one directory and puts it into a free slot of another, and a
folder gets another parent. Both rearrange the live entries: none is lost, none
appears twice, and the chains stay where they are.
-/

namespace Os2024.FileSystem
open Library.PackedLayout Library.LinkedCells Library.LeafEdges Library.RootedTree Relation

def DirectoryEntry.withName (e : DirectoryEntry) (name : Bytes 8) : DirectoryEntry :=
  { e with name := name }

@[simp] theorem DirectoryEntry.withName_self (e : DirectoryEntry) : e.withName e.name = e := rfl

namespace Volume
variable {v v' : Volume}

/-- The live entries of `v'` are those of `v`, each at the place that `place` gives and perhaps
under another name. -/
structure Rearranged (v v' : Volume) (place : Cell × Fin 64 ≃ Cell × Fin 64) : Prop where
  fat : v'.fat = v.fat
  existing : ∀ d, v'.Existing d ↔ v.Existing d
  live : ∀ x, v'.LiveEntry (place x).1 (place x).2 ↔ v.LiveEntry x.1 x.2
  same : ∀ x, v.LiveEntry x.1 x.2 → ∃ name,
    v'.table (place x).1 (place x).2 = (v.table x.1 x.2).withName name
  links : ∀ {d}, v.Existing d → (v'.table d 0).Live ∧ (v'.table d 1).Live
  free_zero : ∀ {d}, v.Existing d → ∀ i, ¬(v'.table d i).Live → v'.table d i = .zero
  names : ∀ {d}, v.Existing d → ∀ i j, 2 ≤ i → (v'.table d i).Live → (v'.table d j).Live →
    (v'.table d i).name = (v'.table d j).name → (v'.table d i).ext = (v'.table d j).ext → i = j

namespace Rearranged
variable {place : Cell × Fin 64 ≃ Cell × Fin 64}

theorem source (r : v.Rearranged v' place) {d : Cell} {i : Fin 64} (he : v'.LiveEntry d i) :
    ∃ x, place x = (d, i) ∧ v.LiveEntry x.1 x.2 ∧
      ∃ name, v'.table d i = (v.table x.1 x.2).withName name := by
  have hx : place (place.symm (d, i)) = (d, i) := place.apply_symm_apply _
  have hlive := r.live (place.symm (d, i))
  have hsame := r.same (place.symm (d, i))
  rw [hx] at hlive hsame
  exact ⟨_, hx, hlive.mp he, hsame (hlive.mp he)⟩

theorem entryChain_iff (r : v.Rearranged v' place) (e : DirectoryEntry) (name : Bytes 8)
    (l : List Cell) : v'.EntryChain (e.withName name) l ↔ v.EntryChain e l := by
  rw [EntryChain, r.fat, EntryChain]
  rfl

theorem wellFormed (r : v.Rearranged v' place) (hv : v.WellFormed) : v'.WellFormed where
  reserved0 := by rw [r.fat, hv.reserved0]
  reserved1 := by rw [r.fat, hv.reserved1]
  rootCell := by rw [r.fat, hv.rootCell]
  links hd := r.links ((r.existing _).mp hd)
  free_zero hd := r.free_zero ((r.existing _).mp hd)
  names hd := r.names ((r.existing _).mp hd)
  chain := by
    intro d i he
    obtain ⟨x, -, hx, name, heq⟩ := r.source he
    obtain ⟨l, hl, hne, hge, hlen⟩ := hv.chain hx
    rw [heq]
    exact ⟨l, (r.entryChain_iff _ _ _).mpr hl, hne, hge, hlen⟩
  disjoint := by
    intro d i d' i' l l' he he' hl hl' hne
    obtain ⟨x, hpx, hx, name, heq⟩ := r.source he
    obtain ⟨y, hpy, hy, name', heq'⟩ := r.source he'
    rw [heq, r.entryChain_iff] at hl
    rw [heq', r.entryChain_iff] at hl'
    refine hv.disjoint hx hy hl hl' fun hxy => hne ?_
    rw [← hpx, ← hpy, show x = y from hxy]

end Rearranged

theorem fat_of_data (hv : v.WellFormed) (h : ∀ c, ¬v.Existing c → v' c = v c) : v'.fat = v.fat := by
  rw [fat, h 1 fun hex => absurd (hv.existing_ge hex) (by decide), ← fat]

/-- The entry in slot `i` of `p` has got another name, and so has slot 0 of a folder. -/
structure Renamed (v v' : Volume) (p : Cell) (i : Fin 64) (name : Bytes 8) : Prop where
  entry : v.LiveEntry p i
  fresh : ∀ j, (v.table p j).Live → (v.table p j).ext = (v.table p i).ext →
    (v.table p j).name ≠ name
  freshBelow : ∀ {c}, v.Lists p i c → ∀ j, 2 ≤ j → (v.table c j).Live →
    (v.table c j).ext = (v.table c 0).ext → (v.table c j).name ≠ name
  named : v'.table p i = (v.table p i).withName name
  self : ∀ {c}, v.Lists p i c → v'.table c 0 = (v.table c 0).withName name
  tables : ∀ {d j}, v.Existing d → (d, j) ≠ (p, i) → (j = 0 → ¬v.Lists p i d) →
    v'.table d j = v.table d j
  data : ∀ c, ¬v.Existing c → v' c = v c

namespace Renamed
variable {p : Cell} {i : Fin 64} {name : Bytes 8}

theorem of_tables (he : v.LiveEntry p i)
    (hfresh : ∀ j, (v.table p j).Live → (v.table p j).ext = (v.table p i).ext →
      (v.table p j).name ≠ name)
    (hbelow : ∀ {c}, v.Lists p i c → ∀ j, 2 ≤ j → (v.table c j).Live →
      (v.table c j).ext = (v.table c 0).ext → (v.table c j).name ≠ name)
    (hp : v'.table p = Function.update (v.table p) i ((v.table p i).withName name))
    (hc : ∀ {c}, v.Lists p i c →
      v'.table c = Function.update (v.table c) 0 ((v.table c 0).withName name))
    (hrest : ∀ b, b ≠ p → ¬v.Lists p i b → v' b = v b) : v.Renamed v' p i name where
  entry := he
  fresh := hfresh
  freshBelow := hbelow
  named := by rw [hp, Function.update_self]
  self hl := by rw [hc hl, Function.update_self]
  tables := by
    intro d j hd hne hself
    by_cases hdp : d = p
    · subst d
      rw [hp, Function.update_of_ne fun h => hne (congrArg (Prod.mk p) h)]
    · by_cases hl : v.Lists p i d
      · rw [hc hl, Function.update_of_ne fun h => hself h hl]
      · rw [table, hrest d hdp hl, ← table]
  data := by
    intro c hc
    refine hrest c (fun h => hc (h ▸ he.existing)) fun hl => hc hl.existing_child

theorem withName (r : v.Renamed v' p i name) {d : Cell} (hd : v.Existing d) (j : Fin 64) :
    ∃ name', v'.table d j = (v.table d j).withName name' := by
  by_cases hdj : (d, j) = (p, i)
  · obtain ⟨rfl, rfl⟩ := Prod.mk.inj hdj
    exact ⟨name, r.named⟩
  · by_cases hself : j = 0 ∧ v.Lists p i d
    · obtain ⟨rfl, hl⟩ := hself
      exact ⟨name, r.self hl⟩
    · refine ⟨(v.table d j).name, ?_⟩
      rw [r.tables hd hdj fun h0 hl => hself ⟨h0, hl⟩, DirectoryEntry.withName_self]

theorem live_iff (r : v.Renamed v' p i name) {d : Cell} (hd : v.Existing d) (j : Fin 64) :
    (v'.table d j).Live ↔ (v.table d j).Live := by
  obtain ⟨name', h⟩ := r.withName hd j
  rw [h]
  rfl

theorem child_iff (r : v.Renamed v' p i name) {d : Cell} (hd : v.Existing d) (c : Cell) :
    v.Child d c ↔ v'.Child d c := by
  refine exists_congr fun j => ?_
  obtain ⟨name', h⟩ := r.withName hd j
  rw [h]
  rfl

theorem existing_iff (r : v.Renamed v' p i name) (d : Cell) : v'.Existing d ↔ v.Existing d :=
  (reach_congr (fun _ ha => r.child_iff ha) d).symm

/-- Names that are new in both tables keep the names of a table apart. -/
theorem names (r : v.Renamed v' p i name) (hv : v.WellFormed) {d : Cell} (hd : v.Existing d)
    {j k : Fin 64} (hj : 2 ≤ j) (hlive : (v.table d j).Live) (hlive' : (v.table d k).Live)
    (hname : (v'.table d j).name = (v'.table d k).name) (hext : (v.table d j).ext = (v.table d k).ext) :
    j = k := by
  have hold : ∀ l, 2 ≤ l → (d, l) ≠ (p, i) → v'.table d l = v.table d l := by
    rintro l hl hne
    refine r.tables hd hne ?_
    rintro rfl
    exact absurd hl (by decide)
  by_cases hk0 : k = 0 ∧ v.Lists p i d
  · obtain ⟨rfl, hl⟩ := hk0
    have hdp : (d, j) ≠ (p, i) := by
      rintro heq
      obtain ⟨rfl, rfl⟩ := Prod.mk.inj heq
      exact hv.rooted.ne_of_edge hl.existing hl.child rfl
    rw [hold j hj hdp, r.self hl] at hname
    exact absurd hname (r.freshBelow hl j hj hlive hext)
  · have hkold : (d, k) ≠ (p, i) → v'.table d k = v.table d k :=
      fun hne => r.tables hd hne fun h0 hl => hk0 ⟨h0, hl⟩
    by_cases hjp : (d, j) = (p, i)
    · obtain ⟨rfl, rfl⟩ := Prod.mk.inj hjp
      by_contra hne
      rw [r.named, hkold fun h => hne (Prod.mk.inj h).2.symm] at hname
      exact r.fresh k hlive' hext.symm hname.symm
    · by_cases hkp : (d, k) = (p, i)
      · obtain ⟨rfl, rfl⟩ := Prod.mk.inj hkp
        rw [hold j hj hjp, r.named] at hname
        exact absurd hname (r.fresh j hlive hext)
      · rw [hold j hj hjp, hkold hkp] at hname
        exact hv.names hd j k hj hlive hlive' hname hext

theorem rearranged (r : v.Renamed v' p i name) (hv : v.WellFormed) :
    v.Rearranged v' (Equiv.refl _) where
  fat := fat_of_data hv r.data
  existing := r.existing_iff
  live := by
    rintro ⟨d, j⟩
    rw [Equiv.refl_apply]
    constructor
    · rintro ⟨hd, hj, hlive⟩
      have hd' := (r.existing_iff d).mp hd
      exact ⟨hd', hj, (r.live_iff hd' j).mp hlive⟩
    · rintro ⟨hd, hj, hlive⟩
      exact ⟨(r.existing_iff d).mpr hd, hj, (r.live_iff hd j).mpr hlive⟩
  same x hx := r.withName hx.existing x.2
  links hd := by
    rw [r.live_iff hd, r.live_iff hd]
    exact hv.links hd
  free_zero := by
    intro d hd j hfree
    rw [r.live_iff hd] at hfree
    rw [← hv.free_zero hd j hfree]
    refine r.tables hd ?_ ?_
    · rintro heq
      obtain ⟨rfl, rfl⟩ := Prod.mk.inj heq
      exact hfree r.entry.live
    · rintro rfl
      exact absurd (hv.links hd).1 hfree
  names := by
    intro d hd j k hj hlive hlive' hname hext
    obtain ⟨n, hn⟩ := r.withName hd j
    obtain ⟨m, hm⟩ := r.withName hd k
    rw [r.live_iff hd] at hlive hlive'
    refine r.names hv hd hj hlive hlive' hname ?_
    rw [hn, hm] at hext
    exact hext

theorem lists_iff (r : v.Renamed v' p i name) {d c : Cell} {j : Fin 64} :
    v'.Lists d j c ↔ v.Lists d j c := by
  constructor
  · intro hl
    have hd := (r.existing_iff d).mp hl.existing
    obtain ⟨n, hn⟩ := r.withName hd j
    obtain ⟨⟨-, hj, hlive⟩, hfolder, hc⟩ := hl
    rw [hn] at hlive hfolder hc
    exact ⟨⟨hd, hj, hlive⟩, hfolder, hc⟩
  · intro hl
    obtain ⟨n, hn⟩ := r.withName hl.existing j
    obtain ⟨⟨hd, hj, hlive⟩, hfolder, hc⟩ := hl
    refine ⟨⟨(r.existing_iff d).mpr hd, hj, ?_⟩, ?_, ?_⟩ <;> rw [hn]
    · exact hlive
    · exact hfolder
    · exact hc

/-- The link slots follow the new name when it is padded. -/
theorem keeps_linked (r : v.Renamed v' p i name) (hv : v.WellFormed)
    (hname : copyName name = name) (hlinked : v.Linked) : v'.Linked := by
  intro d j c hl
  have hold := r.lists_iff.mp hl
  have hlinks := hlinked hold
  have h1 : v'.table c 1 = v.table c 1 := by
    refine r.tables hold.existing_child (fun heq => ?_) (fun h => absurd h (by decide))
    exact absurd (Prod.mk.inj heq).2.symm (ne_of_gt (lt_of_lt_of_le (by decide) r.entry.slot))
  by_cases hdj : (d, j) = (p, i)
  · obtain ⟨rfl, rfl⟩ := Prod.mk.inj hdj
    rw [r.named]
    exact
      { selfFolder := by rw [r.self hold]; exact hlinks.selfFolder
        selfCluster := by rw [r.self hold]; exact hlinks.selfCluster
        selfName := by rw [r.self hold]; exact hname.symm
        selfExt := by rw [r.self hold]; exact hlinks.selfExt
        parentFolder := by rw [h1]; exact hlinks.parentFolder
        parentCluster := by rw [h1]; exact hlinks.parentCluster }
  · have hj0 : j ≠ 0 := by
      rintro rfl
      exact absurd hold.slot (by decide)
    rw [r.tables hold.existing hdj fun h => absurd h hj0]
    refine hlinks.congr (r.tables hold.existing_child (fun heq => ?_) fun _ hl' => ?_) h1
    · exact absurd (Prod.mk.inj heq).2.symm (ne_of_gt (lt_of_lt_of_le (by decide) r.entry.slot))
    · obtain ⟨rfl, rfl⟩ := hold.unique hv hl'
      exact hdj rfl

theorem root_links (r : v.Renamed v' p i name) (hv : v.WellFormed) {j : Fin 64} (hj : j < 2) :
    v'.table 2 j = v.table 2 j := by
  refine r.tables .refl (fun heq => ?_) fun _ hl => hl.child_ne_root hv rfl
  exact absurd ((Prod.mk.inj heq).2 ▸ r.entry.slot) (not_le.mpr hj)

end Renamed

/-- The entry in slot `i` of `p` has been taken out and put into slot `k` of `d`, and a folder has
got `d` for its parent. -/
structure Moved (v v' : Volume) (p : Cell) (i : Fin 64) (d : Cell) (k : Fin 64) : Prop where
  entry : v.LiveEntry p i
  existing : v.Existing d
  slot : 2 ≤ k
  free : ¬(v.table d k).Live
  outside : ∀ {c}, v.Lists p i c → ¬ReflTransGen v.Child c d
  fresh : ∀ j, (v.table d j).Live → (v.table d j).ext = (v.table p i).ext →
    (v.table d j).name ≠ (v.table p i).name
  taken : v'.table p i = .zero
  put : v'.table d k = v.table p i
  up : ∀ {c}, v.Lists p i c → ∃ low high,
    v'.table c 1 = { v.table c 1 with clusterLow := low, clusterHigh := high } ∧
    (v'.table c 1).cluster = d.number
  tables : ∀ {b j}, v.Existing b → (b, j) ≠ (p, i) → (b, j) ≠ (d, k) →
    (j = 1 → ¬v.Lists p i b) → v'.table b j = v.table b j
  data : ∀ c, ¬v.Existing c → v' c = v c

namespace Moved
variable {p d : Cell} {i k : Fin 64}

theorem of_tables (he : v.LiveEntry p i) (hd : v.Existing d) (hk : 2 ≤ k)
    (hfree : ¬(v.table d k).Live)
    (houtside : ∀ {c}, v.Lists p i c → ¬ReflTransGen v.Child c d)
    (hfresh : ∀ j, (v.table d j).Live → (v.table d j).ext = (v.table p i).ext →
      (v.table d j).name ≠ (v.table p i).name)
    (hself : (v.table d 0).cluster = d.number)
    (htaken : v'.table p = Function.update (v.table p) i .zero)
    (hput : v'.table d = Function.update (v.table d) k (v.table p i))
    (hup : ∀ {c}, v.Lists p i c → v'.table c = Function.update (v.table c) 1
      { v.table c 1 with
        clusterHigh := (v.table d 0).clusterHigh
        clusterLow := (v.table d 0).clusterLow })
    (hrest : ∀ b, b ≠ p → b ≠ d → ¬v.Lists p i b → v' b = v b) : v.Moved v' p i d k where
  entry := he
  existing := hd
  slot := hk
  free := hfree
  outside := houtside
  fresh := hfresh
  taken := by rw [htaken, Function.update_self]
  put := by rw [hput, Function.update_self]
  up := by
    intro c hl
    rw [hup hl, Function.update_self]
    exact ⟨_, _, rfl, hself⟩
  tables := by
    intro b j hb hne hne' hlist
    by_cases hbp : b = p
    · subst b
      rw [htaken, Function.update_of_ne fun h => hne (congrArg (Prod.mk p) h)]
    · by_cases hbd : b = d
      · subst b
        rw [hput, Function.update_of_ne fun h => hne' (congrArg (Prod.mk d) h)]
      · by_cases hl : v.Lists p i b
        · rw [hup hl, Function.update_of_ne fun h => hlist h hl]
        · rw [table, hrest b hbp hbd hl, ← table]
  data := by
    intro c hc
    exact hrest c (fun h => hc (h ▸ he.existing)) (fun h => hc (h ▸ hd))
      fun hl => hc hl.existing_child

theorem table_of_ge (m : v.Moved v' p i d k) {b : Cell} {j : Fin 64} (hb : v.Existing b)
    (hj : 2 ≤ j) (hp : (b, j) ≠ (p, i)) (hd : (b, j) ≠ (d, k)) : v'.table b j = v.table b j := by
  refine m.tables hb hp hd ?_
  rintro rfl
  exact absurd hj (by decide)

theorem live_iff (m : v.Moved v' p i d k) {b : Cell} {j : Fin 64} (hb : v.Existing b)
    (hp : (b, j) ≠ (p, i)) (hd : (b, j) ≠ (d, k)) : (v'.table b j).Live ↔ (v.table b j).Live := by
  by_cases hup : j = 1 ∧ v.Lists p i b
  · obtain ⟨rfl, hl⟩ := hup
    obtain ⟨low, high, h, -⟩ := m.up hl
    rw [h]
    rfl
  · rw [m.tables hb hp hd fun h1 hl => hup ⟨h1, hl⟩]

theorem child_mono (m : v.Moved v' p i d k) {a b : Cell} (ha : v.Existing a) (hab : v.Child a b)
    (hne : ¬v.Lists p i b) : v'.Child a b := by
  obtain ⟨j, hj, hlive, hfolder, hc⟩ := hab
  have hp : (a, j) ≠ (p, i) := by
    intro heq
    obtain ⟨rfl, rfl⟩ := Prod.mk.inj heq
    exact hne ⟨⟨ha, hj, hlive⟩, hfolder, hc⟩
  have hd : (a, j) ≠ (d, k) := by
    intro heq
    obtain ⟨rfl, rfl⟩ := Prod.mk.inj heq
    exact m.free hlive
  exact ⟨j, hj, by rwa [m.table_of_ge ha hj hp hd], by rwa [m.table_of_ge ha hj hp hd],
    by rwa [m.table_of_ge ha hj hp hd]⟩

/-- A new edge leads from the destination to the moved folder. -/
theorem child_cases (m : v.Moved v' p i d k) {a b : Cell} (ha : v.Existing a)
    (hab : v'.Child a b) : v.Child a b ∨ (a = d ∧ v.Lists p i b) := by
  obtain ⟨j, hj, hlive, hfolder, hc⟩ := hab
  by_cases hp : (a, j) = (p, i)
  · obtain ⟨rfl, rfl⟩ := Prod.mk.inj hp
    rw [m.taken] at hlive
    exact absurd hlive (by decide)
  · by_cases hd : (a, j) = (d, k)
    · obtain ⟨rfl, rfl⟩ := Prod.mk.inj hd
      rw [m.put] at hfolder hc
      exact .inr ⟨rfl, m.entry, hfolder, hc⟩
    · rw [m.table_of_ge ha hj hp hd] at hlive hfolder hc
      exact .inl ⟨j, hj, hlive, hfolder, hc⟩

/-- A file has no edges, and the subtree of a folder hangs below its new parent. -/
theorem existing_iff (m : v.Moved v' p i d k) (hv : v.WellFormed) (b : Cell) :
    v'.Existing b ↔ v.Existing b := by
  by_cases hfolder : (v.table p i).IsFolder
  · obtain ⟨c, -, hc, -, -, hex⟩ := hv.folder_chain m.entry hfolder
    have hl : v.Lists p i c := ⟨m.entry, hfolder, hc⟩
    have honly : ∀ {b}, v.Lists p i b → b = c := fun hb =>
      Cell.number_injective (hb.cluster.symm.trans hc)
    refine (reach_moved hex m.existing (m.outside hl) ?_ ?_ ?_).symm
    · exact fun a b ha hab hbc => m.child_mono ha hab fun hb => hbc (honly hb)
    · exact ⟨k, m.slot, m.put ▸ m.entry.live, m.put ▸ hfolder, m.put ▸ hc⟩
    · exact fun a b ha hab => (m.child_cases ha hab).imp_right fun h => honly h.2
  · have hnone : ∀ {b}, ¬v.Lists p i b := fun hl => hfolder hl.folder
    refine (reach_congr (fun a ha b => ⟨fun hab => m.child_mono ha hab hnone, fun hab => ?_⟩) b).symm
    exact (m.child_cases ha hab).resolve_right fun h => hnone h.2

/-- A slot that is live afterwards is the new place, or was live under the same name. -/
theorem live_cases (m : v.Moved v' p i d k) {b : Cell} {j : Fin 64} (hb : v.Existing b)
    (hlive : (v'.table b j).Live) : (b, j) = (d, k) ∨ (b, j) ≠ (p, i) ∧ (v.table b j).Live ∧
      (v'.table b j).name = (v.table b j).name ∧ (v'.table b j).ext = (v.table b j).ext := by
  by_cases hd : (b, j) = (d, k)
  · exact .inl hd
  · have hp : (b, j) ≠ (p, i) := by
      intro heq
      obtain ⟨rfl, rfl⟩ := Prod.mk.inj heq
      rw [m.taken] at hlive
      exact absurd hlive (by decide)
    refine .inr ⟨hp, (m.live_iff hb hp hd).mp hlive, ?_⟩
    by_cases hup : j = 1 ∧ v.Lists p i b
    · obtain ⟨rfl, hl⟩ := hup
      obtain ⟨low, high, h, -⟩ := m.up hl
      rw [h]
      exact ⟨rfl, rfl⟩
    · rw [m.tables hb hp hd fun h1 hl => hup ⟨h1, hl⟩]
      exact ⟨rfl, rfl⟩

theorem names (m : v.Moved v' p i d k) (hv : v.WellFormed) {b : Cell} (hb : v.Existing b)
    {j l : Fin 64} (hj : 2 ≤ j) (hlive : (v'.table b j).Live) (hlive' : (v'.table b l).Live)
    (hname : (v'.table b j).name = (v'.table b l).name)
    (hext : (v'.table b j).ext = (v'.table b l).ext) : j = l := by
  rcases m.live_cases hb hlive with hjd | ⟨-, hold, hn, he⟩
  · obtain ⟨rfl, rfl⟩ := Prod.mk.inj hjd
    rcases m.live_cases hb hlive' with hld | ⟨-, hold', hn', he'⟩
    · exact (Prod.mk.inj hld).2.symm
    · rw [m.put] at hname hext
      exact absurd (hn'.symm.trans hname.symm) (m.fresh l hold' (he'.symm.trans hext.symm))
  · rcases m.live_cases hb hlive' with hld | ⟨-, hold', hn', he'⟩
    · obtain ⟨rfl, rfl⟩ := Prod.mk.inj hld
      rw [m.put] at hname hext
      exact absurd (hn.symm.trans hname) (m.fresh j hold (he.symm.trans hext))
    · exact hv.names hb j l hj hold hold' (hn.symm.trans (hname.trans hn'))
        (he.symm.trans (hext.trans he'))

/-- The entry has changed its place, and the free place has gone to where it was. -/
theorem rearranged (m : v.Moved v' p i d k) (hv : v.WellFormed) :
    v.Rearranged v' (Equiv.swap (p, i) (d, k)) where
  fat := fat_of_data hv m.data
  existing := m.existing_iff hv
  live := by
    rintro ⟨b, j⟩
    by_cases hp : (b, j) = (p, i)
    · rw [hp, Equiv.swap_apply_left]
      refine ⟨fun _ => m.entry, fun _ => ⟨(m.existing_iff hv d).mpr m.existing, m.slot, ?_⟩⟩
      rw [m.put]
      exact m.entry.live
    · by_cases hd : (b, j) = (d, k)
      · rw [hd, Equiv.swap_apply_right]
        refine ⟨fun h => absurd h.live ?_, fun h => absurd h.live m.free⟩
        rw [m.taken]
        decide
      · rw [Equiv.swap_apply_of_ne_of_ne hp hd]
        constructor
        · rintro ⟨hb, hj, hlive⟩
          have hb' := (m.existing_iff hv b).mp hb
          exact ⟨hb', hj, (m.live_iff hb' hp hd).mp hlive⟩
        · rintro ⟨hb, hj, hlive⟩
          exact ⟨(m.existing_iff hv b).mpr hb, hj, (m.live_iff hb hp hd).mpr hlive⟩
  same := by
    rintro ⟨b, j⟩ hx
    by_cases hp : (b, j) = (p, i)
    · rw [hp, Equiv.swap_apply_left]
      exact ⟨_, m.put.trans (DirectoryEntry.withName_self _).symm⟩
    · by_cases hd : (b, j) = (d, k)
      · obtain ⟨rfl, rfl⟩ := Prod.mk.inj hd
        exact absurd hx.live m.free
      · rw [Equiv.swap_apply_of_ne_of_ne hp hd]
        exact ⟨_, (m.table_of_ge hx.existing hx.slot hp hd).trans
          (DirectoryEntry.withName_self _).symm⟩
  links := by
    have hlink : ∀ b j, v.Existing b → j < 2 → (v.table b j).Live → (v'.table b j).Live := by
      intro b j hb hj hlive
      refine (m.live_iff hb (fun heq => ?_) fun heq => ?_).mpr hlive
      · exact absurd ((Prod.mk.inj heq).2 ▸ m.entry.slot) (not_le.mpr hj)
      · exact absurd ((Prod.mk.inj heq).2 ▸ m.slot) (not_le.mpr hj)
    intro b hb
    exact ⟨hlink b 0 hb (by decide) (hv.links hb).1, hlink b 1 hb (by decide) (hv.links hb).2⟩
  free_zero := by
    intro b hb j hfree
    by_cases hp : (b, j) = (p, i)
    · obtain ⟨rfl, rfl⟩ := Prod.mk.inj hp
      exact m.taken
    · by_cases hd : (b, j) = (d, k)
      · obtain ⟨rfl, rfl⟩ := Prod.mk.inj hd
        rw [m.put] at hfree
        exact absurd m.entry.live hfree
      · have hfree' := fun hlive => hfree ((m.live_iff hb hp hd).mpr hlive)
        rw [← hv.free_zero hb j hfree']
        refine m.tables hb hp hd ?_
        rintro rfl
        exact absurd (hv.links hb).2 hfree'
  names hb _ _ := m.names hv hb

theorem lists_cases (m : v.Moved v' p i d k) (hv : v.WellFormed) {b c : Cell} {j : Fin 64}
    (hl : v'.Lists b j c) : ((b, j) = (d, k) ∧ v.Lists p i c) ∨
      ((b, j) ≠ (p, i) ∧ v'.table b j = v.table b j ∧ v.Lists b j c) := by
  have hb := (m.existing_iff hv b).mp hl.existing
  rcases m.live_cases hb hl.live with hd | ⟨hp, hlive, -, -⟩
  · obtain ⟨rfl, rfl⟩ := Prod.mk.inj hd
    exact .inl ⟨rfl, m.entry, m.put ▸ hl.folder, m.put ▸ hl.cluster⟩
  · have hd : (b, j) ≠ (d, k) := by
      intro heq
      obtain ⟨rfl, rfl⟩ := Prod.mk.inj heq
      exact m.free hlive
    have heq := m.table_of_ge hb hl.slot hp hd
    exact .inr ⟨hp, heq, ⟨hb, hl.slot, hlive⟩, heq ▸ hl.folder, heq ▸ hl.cluster⟩

theorem link_slot (m : v.Moved v' p i d k) {b : Cell} {j : Fin 64} (hb : v.Existing b) (hj : j < 2)
    (hup : j = 1 → ¬v.Lists p i b) : v'.table b j = v.table b j := by
  refine m.tables hb (fun heq => ?_) (fun heq => ?_) hup
  · exact absurd ((Prod.mk.inj heq).2 ▸ m.entry.slot) (not_le.mpr hj)
  · exact absurd ((Prod.mk.inj heq).2 ▸ m.slot) (not_le.mpr hj)

theorem keeps_linked (m : v.Moved v' p i d k) (hv : v.WellFormed) (hlinked : v.Linked) :
    v'.Linked := by
  intro b j c hl
  rcases m.lists_cases hv hl with ⟨hd, hold⟩ | ⟨hp, heq, hold⟩
  · obtain ⟨rfl, rfl⟩ := Prod.mk.inj hd
    have hlinks := hlinked hold
    have h0 := m.link_slot (j := 0) hold.existing_child (by decide) fun h => absurd h (by decide)
    obtain ⟨low, high, h1, hcluster⟩ := m.up hold
    rw [m.put]
    exact
      { selfFolder := by rw [h0]; exact hlinks.selfFolder
        selfCluster := by rw [h0]; exact hlinks.selfCluster
        selfName := by rw [h0]; exact hlinks.selfName
        selfExt := by rw [h0]; exact hlinks.selfExt
        parentFolder := by rw [h1]; exact hlinks.parentFolder
        parentCluster := hcluster }
  · have hother : ¬v.Lists p i c := by
      intro hl'
      obtain ⟨rfl, rfl⟩ := hold.unique hv hl'
      exact hp rfl
    rw [heq]
    exact (hlinked hold).congr
      (m.link_slot hold.existing_child (by decide) fun h => absurd h (by decide))
      (m.link_slot hold.existing_child (by decide) fun _ => hother)

theorem root_links (m : v.Moved v' p i d k) (hv : v.WellFormed) {j : Fin 64} (hj : j < 2) :
    v'.table 2 j = v.table 2 j :=
  m.link_slot .refl hj fun _ hl => hl.child_ne_root hv rfl

end Moved

/-- A live entry is known by its first cluster. -/
theorem WellFormed.cluster_unique (hv : v.WellFormed) {d d' : Cell} {i i' : Fin 64}
    (he : v.LiveEntry d i) (he' : v.LiveEntry d' i')
    (hcluster : (v.table d i).cluster = (v.table d' i').cluster) : d = d' ∧ i = i' := by
  by_contra hne
  obtain ⟨l, hl, hnil, -⟩ := hv.chain he
  obtain ⟨l', hl', hnil', -⟩ := hv.chain he'
  obtain ⟨c, rest, rfl⟩ := List.exists_cons_of_ne_nil hnil
  refine hv.disjoint he he' hl hl' (fun heq => hne (Prod.mk.inj heq)) List.mem_cons_self ?_
  exact hl'.head_mem hnil' (hcluster.symm.trans hl.1)

/-- The live entries, known by their first clusters, are the same as before, each once, and only
one of them has another name or another place. -/
structure Conserved (v v' : Volume) : Prop where
  clusters : ∀ n, (∃ d i, v'.LiveEntry d i ∧ (v'.table d i).cluster = n) ↔
    ∃ d i, v.LiveEntry d i ∧ (v.table d i).cluster = n
  once : ∀ {d i d' i'}, v'.LiveEntry d i → v'.LiveEntry d' i' →
    (v'.table d i).cluster = (v'.table d' i').cluster → d = d' ∧ i = i'
  others : ∃ p i d k, v.LiveEntry p i ∧ v'.LiveEntry d k ∧
    (∃ name, v'.table d k = (v.table p i).withName name) ∧
    ∀ {b j}, v.LiveEntry b j → (b, j) ≠ (p, i) → v'.LiveEntry b j ∧ v'.table b j = v.table b j
  names : ∀ {d i j}, v'.LiveEntry d i → (v'.table d j).Live →
    (v'.table d i).name = (v'.table d j).name → (v'.table d i).ext = (v'.table d j).ext → i = j
  directories : ∀ d, v'.Existing d ↔ v.Existing d
  data : ∀ c, ¬v.Existing c → v' c = v c

theorem Rearranged.clusters {place : Cell × Fin 64 ≃ Cell × Fin 64} (r : v.Rearranged v' place)
    (n : UInt32) : (∃ d i, v'.LiveEntry d i ∧ (v'.table d i).cluster = n) ↔
      ∃ d i, v.LiveEntry d i ∧ (v.table d i).cluster = n := by
  constructor
  · rintro ⟨d, i, he, hn⟩
    obtain ⟨x, -, hx, name, heq⟩ := r.source he
    rw [heq] at hn
    exact ⟨x.1, x.2, hx, hn⟩
  · rintro ⟨d, i, he, hn⟩
    obtain ⟨name, heq⟩ := r.same (d, i) he
    exact ⟨_, _, (r.live (d, i)).mpr he, heq ▸ hn⟩

theorem Renamed.conserved {p : Cell} {i : Fin 64} {name : Bytes 8} (r : v.Renamed v' p i name)
    (hv : v.WellFormed) : v.Conserved v' where
  clusters := (r.rearranged hv).clusters
  once := ((r.rearranged hv).wellFormed hv).cluster_unique
  others := by
    refine ⟨p, i, p, i, r.entry, ((r.rearranged hv).live (p, i)).mpr r.entry, ⟨name, r.named⟩,
      fun {b j} he hne => ⟨((r.rearranged hv).live (b, j)).mpr he, r.tables he.existing hne ?_⟩⟩
    rintro rfl
    exact absurd he.slot (by decide)
  names he := ((r.rearranged hv).wellFormed hv).names he.existing _ _ he.slot he.live
  directories := r.existing_iff
  data := r.data

theorem Moved.conserved {p d : Cell} {i k : Fin 64} (m : v.Moved v' p i d k) (hv : v.WellFormed) :
    v.Conserved v' where
  clusters := (m.rearranged hv).clusters
  once := ((m.rearranged hv).wellFormed hv).cluster_unique
  others := by
    have hput := ((m.rearranged hv).live (p, i)).mpr m.entry
    rw [Equiv.swap_apply_left] at hput
    refine ⟨p, i, d, k, m.entry, hput, ⟨_, m.put.trans (DirectoryEntry.withName_self _).symm⟩,
      fun {b j} he hne => ?_⟩
    have hd : (b, j) ≠ (d, k) := by
      intro heq
      obtain ⟨rfl, rfl⟩ := Prod.mk.inj heq
      exact m.free he.live
    have hlive := ((m.rearranged hv).live (b, j)).mpr he
    rw [Equiv.swap_apply_of_ne_of_ne hne hd] at hlive
    exact ⟨hlive, m.table_of_ge he.existing he.slot hne hd⟩
  names he := ((m.rearranged hv).wellFormed hv).names he.existing _ _ he.slot he.live
  directories := m.existing_iff hv
  data := m.data

end Volume

end Os2024.FileSystem
