import Os2024.FileSystem.Walks

/-! # Reboots between the calls

The kernel calls `initialize_filesystem_fat32` when it starts, with anything in
memory. After every valid call the stored table is the cached one and the boot
sector is signed, so a reboot reloads exactly what was lost and no later call can
tell that it has happened.
-/

namespace Os2024.FileSystem
open Library.PackedLayout Library.LinkedCells Library.Runs

/-- The calls of fat32.h that the system calls make. -/
inductive Operation where
  | read (request : DriverRequest)
  | readDirectory (request : DriverRequest)
  | write (mem : Memory) (request : DriverRequest)
  | delete (request : DriverRequest)

/-- The return code and what is stored at `request.buf`. -/
abbrev Reply := Int8 × List (UInt32 × Cluster)

namespace Operation

def request : Operation → DriverRequest
  | read request => request
  | readDirectory request => request
  | write _ request => request
  | delete request => request

def exec : Operation → Storage → Except Fault (Reply × Storage)
  | read request, s =>
    match FileSystem.read request s with
    | .error f => .error f
    | .ok reply => .ok (reply, s)
  | readDirectory request, s =>
    let (code, data) := FileSystem.readDirectory request s
    .ok ((code, data.toList.map fun cluster => (request.buf, cluster)), s)
  | write mem request, s =>
    match FileSystem.write mem request s with
    | .error f => .error f
    | .ok (code, s) => .ok ((code, []), s)
  | delete request, s =>
    match FileSystem.delete request s with
    | .error f => .error f
    | .ok (code, s) => .ok ((code, []), s)

end Operation

/-- A machine that starts again keeps the disk; `clusterMap` is what its memory holds. -/
def restart (clusterMap : FileAllocationTable) (s : Storage) : Storage :=
  initializeFilesystemFat32 { s with clusterMap := clusterMap }

inductive Event where
  | operation (op : Operation)
  | reboot (clusterMap : FileAllocationTable)

/-- The replies to the operations in their order, and the state at the end. -/
def history : List Event → Storage → Except Fault (List Reply × Storage)
  | [], s => .ok ([], s)
  | .reboot clusterMap :: events, s => history events (restart clusterMap s)
  | .operation op :: events, s =>
    match op.exec s with
    | .error f => .error f
    | .ok (reply, s) =>
      match history events s with
      | .error f => .error f
      | .ok (replies, s) => .ok (reply :: replies, s)

def operations (events : List Event) : List Operation :=
  events.filterMap fun
    | .operation op => some op
    | .reboot _ => none

def ValidFrom : List Operation → Storage → Prop
  | [], _ => True
  | op :: ops, s =>
    op.request.Valid s.volume ∧ ∀ reply s', op.exec s = .ok (reply, s') → ValidFrom ops s'

theorem ValidFrom.of_prefix {ops ops' : List Operation} (h : ops' <+: ops) {s : Storage}
    (hv : ValidFrom ops s) : ValidFrom ops' s := by
  induction ops' generalizing ops s with
  | nil => trivial
  | cons op ops' ih =>
    obtain ⟨rest, rfl⟩ := h
    exact ⟨hv.1, fun reply s' hexec => ih ⟨rest, rfl⟩ (hv.2 reply s' hexec)⟩

structure Settled (s : Storage) : Prop extends Sound s, LinkSlots s

theorem Settled.step {s s' : Storage} {call : Call} (hs : Settled s) (h : ValidStep s call s') :
    Settled s' := ⟨hs.toSound.step h, (hs.toLinkSlots.step h).linked, (hs.toLinkSlots.step h).named,
      (hs.toLinkSlots.step h).rootSelf, (hs.toLinkSlots.step h).rootParent⟩

theorem createFat32_settled (s : Storage) : Settled (createFat32 s) where
  toSound := createFat32_sound s
  linked := (createFat32_linkSlots s).linked
  named := (createFat32_linkSlots s).named
  rootSelf := (createFat32_linkSlots s).rootSelf
  rootParent := (createFat32_linkSlots s).rootParent

/-- A reboot reloads what was in memory. -/
theorem Settled.restart {s : Storage} (hs : Settled s) (clusterMap : FileAllocationTable) :
    restart clusterMap s = s := by
  have hsigned : Signed ({ s with clusterMap := clusterMap } : Storage).volume := hs.signed
  rw [FileSystem.restart, initializeFilesystemFat32_signed hsigned]
  change { s with clusterMap := s.volume.fat } = s
  rw [hs.cached]

theorem Settled.exec {s : Storage} (hs : Settled s) {op : Operation}
    (hv : op.request.Valid s.volume) :
    ∃ reply s', op.exec s = .ok (reply, s') ∧ Settled s' := by
  obtain ⟨p, hreq, hp⟩ := hv.parent
  cases op with
  | read request =>
    obtain ⟨r, stores, hread, -⟩ := read_walk hs.toLinkSlots hp hreq hv.named
    change FileSystem.read request s = .ok (r, stores) at hread
    exact ⟨(r, stores), s, by rw [Operation.exec, hread], hs⟩
  | readDirectory request => exact ⟨_, s, rfl, hs⟩
  | write mem request =>
    obtain ⟨⟨r, s', hwrite⟩, -⟩ := valid_returns hs.toConsistent mem hv
    change FileSystem.write mem request s = .ok (r, s') at hwrite
    have hstep : ValidStep s (.write mem request) s' := ⟨by rintro _ ⟨⟩, hv, r, hwrite⟩
    exact ⟨(r, []), s', by rw [Operation.exec, hwrite], hs.step hstep⟩
  | delete request =>
    obtain ⟨-, r, s', hdelete⟩ := valid_returns hs.toConsistent (fun _ => 0) hv
    change FileSystem.delete request s = .ok (r, s') at hdelete
    have hstep : ValidStep s (.delete request) s' := ⟨by rintro _ ⟨⟩, hv, r, hdelete⟩
    exact ⟨(r, []), s', by rw [Operation.exec, hdelete], hs.step hstep⟩

/-- The run lemma: reboots drop out of the history one by one. -/
theorem Settled.history {s : Storage} (hs : Settled s) {events : List Event}
    (hv : ValidFrom (operations events) s) :
    ∃ replies s', history events s = .ok (replies, s') ∧
      history ((operations events).map .operation) s = .ok (replies, s') ∧ Settled s' := by
  induction events generalizing s with
  | nil => exact ⟨[], s, rfl, rfl, hs⟩
  | cons event events ih =>
    cases event with
    | reboot clusterMap =>
      obtain ⟨replies, s', hwith, hwithout, hs'⟩ := ih hs hv
      refine ⟨replies, s', ?_, hwithout, hs'⟩
      rw [FileSystem.history, hs.restart, hwith]
    | operation op =>
      obtain ⟨reply, s₁, hexec, hs₁⟩ := hs.exec hv.1
      obtain ⟨replies, s', hwith, hwithout, hs'⟩ := ih hs₁ (hv.2 reply s₁ hexec)
      refine ⟨reply :: replies, s', ?_, ?_, hs'⟩
      · simp only [FileSystem.history, hexec, hwith]
      · change FileSystem.history (.operation op :: (operations events).map .operation) s = _
        simp only [FileSystem.history, hexec, hwithout]

/-- Whatever reboots come between valid operations, up to any point of the history the replies and
the storage are those of the operations alone, the stored table is the cached one, and the disk
does not count as empty. -/
theorem reboots_unobservable (s₀ : Storage) {events : List Event}
    (hv : ValidFrom (operations events) (createFat32 s₀)) {past : List Event}
    (hpast : past <+: events) :
    ∃ replies s, history past (createFat32 s₀) = .ok (replies, s) ∧
      history ((operations past).map .operation) (createFat32 s₀) = .ok (replies, s) ∧
      s.volume.fat = s.clusterMap ∧ isEmptyStorage s.disk = false := by
  have hv' := hv.of_prefix (hpast.filterMap _)
  obtain ⟨replies, s, hwith, hwithout, hs⟩ := (createFat32_settled s₀).history hv'
  exact ⟨replies, s, hwith, hwithout, hs.cached, isEmptyStorage_eq_false hs.signed⟩

theorem reboots_unobservable_note : ∃ replies s,
    history [.reboot fun _ => 7, .operation (.write (fun _ => 7) noteRequest), .reboot fun _ => 9]
      (createFat32 blankStorage) = .ok (replies, s) ∧
    history [.operation (.write (fun _ => 7) noteRequest)] (createFat32 blankStorage) =
      .ok (replies, s) := by
  have hv : ValidFrom (operations [.reboot fun _ => 7,
      .operation (.write (fun _ => 7) noteRequest), .reboot fun _ => 9])
      (createFat32 blankStorage) := ⟨noteRequest_valid, fun _ _ _ => trivial⟩
  obtain ⟨replies, s, hwith, hwithout, -⟩ :=
    reboots_unobservable blankStorage hv (List.prefix_refl _)
  exact ⟨replies, s, hwith, hwithout⟩

end Os2024.FileSystem
