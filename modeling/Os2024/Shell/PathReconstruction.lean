import Os2024.FileSystem.Links
import Os2024.Shell.Path

/-! # Link slots and paths

In runs of valid calls the link slots of a listed directory are right exactly when
its listing has a padded name and no extension, and those of the root never are.
When all names are of that kind, the path that the shell rebuilds from the link
slots is the one that leads down to the directory.
-/

namespace Os2024.Shell
open Library.PackedLayout Library.CallTrees Library.Runs FileSystem FileSystem.Volume

/-- Slot 0 of the directory in cluster `c` describes this directory and slot 1 the directory in
cluster `d`, as those who read them expect. -/
structure LinksRight (s : Storage) (d c : Cell) (name : Bytes 8) (ext : Bytes 3) : Prop where
  selfLive : (s.volume.table c 0).Live
  selfFolder : (s.volume.table c 0).IsFolder
  selfCluster : (s.volume.table c 0).cluster = c.number
  selfName : (s.volume.table c 0).name = name
  selfExt : (s.volume.table c 0).ext = ext
  parentLive : (s.volume.table c 1).Live
  parentFolder : (s.volume.table c 1).IsFolder
  parentCluster : (s.volume.table c 1).cluster = d.number
  parentName : (s.volume.table c 1).name = (s.volume.table d 0).name
  read : ∀ buf bufferSize, 32 ≤ bufferSize →
    readDirectory ⟨buf, name, ext, c.number, bufferSize⟩ s = (0, some (s.volume c))
  current : ∀ sh : Globals, sh.currentDir = s.volume.table c →
    (setCurrentCluster sh).currentDirCluster = c.number

/-- The name and the extension of slot 0 are what decides. -/
theorem linksRight_iff {s : Storage} (hs : LinkSlots s) {d c : Cell} {i : Fin 64}
    (hl : s.volume.Lists d i c) :
    LinksRight s d c (s.volume.table d i).name (s.volume.table d i).ext ↔
      Padded (s.volume.table d i).name ∧ (s.volume.table d i).ext = fun _ => 0 := by
  obtain ⟨hfolder, hcluster, hname, hext, hfolder', hcluster'⟩ := hs.linked hl
  constructor
  · intro h
    exact ⟨hname.symm.trans h.selfName, h.selfExt.symm.trans hext⟩
  · rintro ⟨hpad, hzero⟩
    obtain ⟨hlive, hlive'⟩ := hs.wellFormed.links hl.existing_child
    have hselfName := hname.trans hpad
    have hselfExt := hext.trans hzero.symm
    exact
      { selfLive := hlive
        selfFolder := hfolder
        selfCluster := hcluster
        selfName := hselfName
        selfExt := hselfExt
        parentLive := hlive'
        parentFolder := hfolder'
        parentCluster := hcluster'
        parentName := hs.named hl
        read := fun buf bufferSize hsize => by
          have hself : lookup (s.volume.table c) ⟨buf, _, _, c.number, bufferSize⟩ = some 0 :=
            lookup_zero hlive ⟨hselfName, hselfExt⟩
          exact readDirectory_folder rfl hself hfolder hcluster hsize
        current := fun sh hsh => by rw [setCurrentCluster, hsh]; exact hcluster }

/-- In every valid run the links of a listed directory are right exactly when its listing has a
padded name and no extension, and those of the root are wrong. -/
theorem validRun_linksRight_iff (s₀ : Storage) {s : Storage}
    (h : Run ValidStep (createFat32 s₀) s) :
    (∀ d i c, s.volume.Lists d i c →
      (LinksRight s d c (s.volume.table d i).name (s.volume.table d i).ext ↔
        Padded (s.volume.table d i).name ∧ (s.volume.table d i).ext = fun _ => 0)) ∧
    ¬LinksRight s 2 2 rootName fun _ => 0 := by
  have hs := linkSlots_of_run h
  refine ⟨fun d i c hl => linksRight_iff hs hl, fun hroot => ?_⟩
  have hcluster := hroot.selfCluster
  rw [hs.rootSelf, linkEntry_cluster] at hcluster
  exact absurd hcluster (by decide)

def folderA : DriverRequest := ⟨0, padName (ascii "a"), fun _ => 0, 2, 0⟩

theorem folderA_valid : folderA.Valid (createFat32 blankStorage).volume :=
  ⟨⟨2, rfl, .refl⟩, by decide, by decide⟩

theorem write_folderA (mem : Memory) : ∃ s i c,
    write mem folderA (createFat32 blankStorage) = .ok (0, s) ∧
    ValidStep (createFat32 blankStorage) (.write mem folderA) s ∧ s.volume.Lists 2 i c ∧
    s.volume.table 2 i = newEntry folderA c := by
  obtain ⟨s, hw⟩ : ∃ s, write mem folderA (createFat32 blankStorage) = .ok (0, s) :=
    write_formatted blankStorage mem rfl (createFat32_fresh blankStorage (by decide) (by decide))
      (.inl rfl)
  obtain ⟨-, k, c, rest, w, hs⟩ := write_done (p := 2) rfl hw
  obtain ⟨hl, hentry⟩ := w.lists (createFat32_consistent blankStorage) .refl rfl mem
  rw [← hs] at hl hentry
  exact ⟨s, k, c, hw, ⟨by rintro _ ⟨⟩, folderA_valid, 0, hw⟩, hl, hentry⟩

theorem validRun_linksRight_folderA : ∃ s c,
    write (fun _ => 0) folderA (createFat32 blankStorage) = .ok (0, s) ∧
      LinksRight s 2 c folderA.name fun _ => 0 := by
  obtain ⟨s, i, c, hw, hstep, hl, hentry⟩ := write_folderA fun _ => 0
  have hright := ((validRun_linksRight_iff blankStorage ((Run.refl _).tail hstep)).1 2 i c hl)
  rw [hentry] at hright
  exact ⟨s, c, hw, hright.mpr ⟨padded_padName (by decide) (ne_zero_of_all (by decide)), rfl⟩⟩

/-- The root of a formatted disk records cluster 0, where its own name leads. -/
theorem formatted_root_links_wrong :
    ((createFat32 blankStorage).volume.table 2 0).cluster = (0 : Cell).number ∧
    readDirectory ⟨0, rootName, fun _ => 0, rootClusterNumber, 2048⟩ (createFat32 blankStorage) =
      (0, some ((createFat32 blankStorage).volume 0)) ∧
    ¬LinksRight (createFat32 blankStorage) 2 2 rootName fun _ => 0 := by
  have hself := (createFat32_links blankStorage).1
  have hcluster : ((createFat32 blankStorage).volume.table 2 0).cluster = (0 : Cell).number := by
    rw [hself, linkEntry_cluster]
    rfl
  refine ⟨hcluster, ?_, fun h => absurd (hcluster.symm.trans h.selfCluster) (by decide)⟩
  refine readDirectory_folder (p := 2) rfl (lookup_zero ?_ ?_) ?_ hcluster (by decide)
  · rw [hself]
    exact linkEntry_live _ _
  · rw [hself]
    exact ⟨rfl, rfl⟩
  · rw [hself]
    exact linkEntry_isFolder _ _

end Os2024.Shell
