import AuraHttpd.V4l2Mount
import AuraHttpd.Proofs.Grabbers
import Mathlib.Data.List.Perm.Subperm

/-!
# Descriptors of cameras

As long as the cameras start there is one descriptor for each device (`OnePerDevice`), and
`cleanup_devices` closes none, since nothing counts the instances.  So a mount that fails has
closed what it opened exactly where the first camera of all fails, at a step whose own cleanup
closes its descriptor once (`v4l2Mount_accounted_iff`).
-/

namespace AuraHttpd.Cameras

open CString

variable {J : JsonLib} {fds : List ℕ}

section Descriptors

/-- Each device path of the sections has one descriptor, which is open and was not before, and
nothing else was opened. -/
structure OnePerDevice (J : JsonLib) (fds : List ℕ) (sections : List Json) (t : Descriptors)
    (instances : List V4l2fsInstance) : Prop where
  devices : instances.map (fun inst => some inst.device)
    = sections.map (jsonArrayFindString J · (lit "device"))
  shared : ∀ a ∈ instances, ∀ b ∈ instances, a.fd = b.fd ↔ a.device = b.device
  used : ∀ inst ∈ instances, ∃ n ∈ t.opened, inst.fd = n
  needed : ∀ n ∈ t.opened, ∃ inst ∈ instances, inst.fd = n
  once : t.opened.Nodup
  isOpen : ∀ n, n ∈ t.fds ↔ n ∈ fds ∨ n ∈ t.opened
  fresh : ∀ n ∈ t.opened, n ∉ fds
  closed : t.closed = []

theorem unused_not_mem (t : Descriptors) : t.unused ∉ t.fds := by
  unfold Descriptors.unused
  rcases h : (List.range (t.fds.length + 1)).find? (· ∉ t.fds) with _ | n
  · -- all the numbers up to the length would be among the descriptors
    have hsub : List.range (t.fds.length + 1) ⊆ t.fds := fun n hn => by
      simpa using List.find?_eq_none.1 h n hn
    have hle := (List.subperm_of_subset List.nodup_range hsub).length_le
    rw [List.length_range] at hle
    omega
  · simpa using List.find?_some h

variable {sections : List Json} {t : Descriptors} {instances : List V4l2fsInstance}

theorem onePerDevice_nil : OnePerDevice J fds [] { fds := fds } [] where
  devices := rfl
  shared := by simp
  used := by simp
  needed := by simp
  once := List.nodup_nil
  isOpen := by simp
  fresh := by simp
  closed := rfl

/-- A camera with the device of an earlier one takes its descriptor. -/
theorem OnePerDevice.share (h : OnePerDevice J fds sections t instances) {pos : Json}
    {inst parent : V4l2fsInstance}
    (hdevice : jsonArrayFindString J pos (lit "device") = some inst.device)
    (hparent : parent ∈ instances) (hsame : parent.device = inst.device)
    (hfd : inst.fd = parent.fd) :
    OnePerDevice J fds (sections ++ [pos]) t (instances ++ [inst]) where
  devices := by simp [h.devices, hdevice]
  shared := by
    have hself : ∀ a ∈ instances, a.fd = inst.fd ↔ a.device = inst.device := fun a ha => by
      rw [hfd, ← hsame]
      exact h.shared a ha parent hparent
    simp only [List.mem_append, List.mem_singleton]
    rintro a (ha | rfl) b (hb | rfl)
    · exact h.shared a ha b hb
    · exact hself a ha
    · rw [eq_comm, hself b hb, eq_comm]
    · simp
  used := by
    simp only [List.mem_append, List.mem_singleton]
    rintro a (ha | rfl)
    · exact h.used a ha
    · exact hfd ▸ h.used parent hparent
  needed := fun n hn => by
    obtain ⟨a, ha, hn⟩ := h.needed n hn
    exact ⟨a, List.mem_append_left _ ha, hn⟩
  once := h.once
  isOpen := h.isOpen
  fresh := h.fresh
  closed := h.closed

/-- A camera with a new device gets a descriptor of its own. -/
theorem OnePerDevice.openFd (h : OnePerDevice J fds sections t instances) {pos : Json}
    {inst : V4l2fsInstance}
    (hdevice : jsonArrayFindString J pos (lit "device") = some inst.device)
    (hnew : ∀ a ∈ instances, a.device ≠ inst.device) (hfd : inst.fd = t.unused) :
    OnePerDevice J fds (sections ++ [pos]) t.openFd.2 (instances ++ [inst]) := by
  have hunused := unused_not_mem t
  have hfds : t.unused ∉ fds ∧ t.unused ∉ t.opened := by
    rw [h.isOpen, not_or] at hunused
    exact hunused
  have hother : ∀ a ∈ instances, a.fd ≠ t.unused := fun a ha heq => by
    obtain ⟨n, hn, hna⟩ := h.used a ha
    obtain rfl : n = t.unused := Nat.cast_injective (hna.symm.trans heq)
    exact hfds.2 hn
  refine ⟨by simp [h.devices, hdevice], ?_, ?_, ?_, ?_, ?_, ?_, h.closed⟩
  · simp only [List.mem_append, List.mem_singleton]
    rintro a (ha | rfl) b (hb | rfl)
    · exact h.shared a ha b hb
    · exact iff_of_false (hfd ▸ hother a ha) (hnew a ha)
    · exact iff_of_false (hfd ▸ (hother b hb).symm) (hnew b hb).symm
    · simp
  · simp only [List.mem_append, List.mem_singleton, Descriptors.openFd]
    rintro a (ha | rfl)
    · obtain ⟨n, hn, hna⟩ := h.used a ha
      exact ⟨n, .inl hn, hna⟩
    · exact ⟨t.unused, .inr rfl, hfd⟩
  · simp only [List.mem_append, List.mem_singleton, Descriptors.openFd]
    rintro n (hn | rfl)
    · obtain ⟨a, ha, hna⟩ := h.needed n hn
      exact ⟨a, .inl ha, hna⟩
    · exact ⟨inst, .inr rfl, hfd⟩
  · refine List.nodup_append.2 ⟨h.once, List.nodup_singleton _, fun n hn m hm => ?_⟩
    rw [List.mem_singleton.1 hm]
    exact fun heq => hfds.2 (heq ▸ hn)
  · intro n
    simp only [Descriptors.openFd, List.mem_cons, List.mem_append, h.isOpen]
    tauto
  · simp only [List.mem_append, List.mem_singleton, Descriptors.openFd]
    rintro n (hn | rfl)
    · exact h.fresh n hn
    · exact hfds.1

end Descriptors

section Cameras

/-- The grabber of a camera, where its section names one. -/
def grabberOf (J : JsonLib) (pos : Json) : Option Grabber :=
  if pos.type = .object then
    (jsonArrayFindString J pos (lit "iomethod")).bind v4l2fsGetGrabberByName
  else none

/-- The input of a camera can be set and told. -/
def TakesInput (calls : CameraCalls) : Prop :=
  deviceSetInput calls = 0 ∧ 0 ≤ deviceGetInput calls

instance (calls : CameraCalls) : Decidable (TakesInput calls) :=
  inferInstanceAs (Decidable (_ ∧ _))

/-- A camera starts behind others: it has a grabber and a device, which is an earlier one's or is
initialized, and takes its input. -/
def StartsBehind (J : JsonLib) (front : List (Json × CameraCalls)) (c : Json × CameraCalls) :
    Prop :=
  ∃ grb device, grabberOf J c.1 = some grb
    ∧ jsonArrayFindString J c.1 (lit "device") = some device
    ∧ ((∃ d ∈ front, jsonArrayFindString J d.1 (lit "device") = some device)
      ∨ CommonInits c.2 ∧ grb.OwnInits c.2)
    ∧ TakesInput c.2

/-- A camera that shares no device fails before anything is opened for it, or behind
`device_common_init`, in what its grabber does itself. -/
def FailsCleanly (J : JsonLib) (c : Json × CameraCalls) : Prop :=
  grabberOf J c.1 = none ∨ jsonArrayFindString J c.1 (lit "device") = none
    ∨ c.2.openDevice = false
    ∨ CommonInits c.2 ∧ ∃ grb, grabberOf J c.1 = some grb ∧ ¬ grb.OwnInits c.2

/-- The section of a camera names a grabber and no device. -/
def NoDevice (J : JsonLib) (c : Json × CameraCalls) : Prop :=
  grabberOf J c.1 ≠ none ∧ jsonArrayFindString J c.1 (lit "device") = none

/-- The cameras start one behind the other, up to the first of all that fails cleanly or to one
behind others without a device, which ends the process. -/
def MountsCleanly (J : JsonLib) :
    List (Json × CameraCalls) → List (Json × CameraCalls) → Prop
  | _, [] => True
  | front, c :: rest => (StartsBehind J front c ∧ MountsCleanly J (front ++ [c]) rest)
    ∨ (front = [] ∧ FailsCleanly J c) ∨ (front ≠ [] ∧ NoDevice J c)

/-- A failed mount has closed every descriptor it opened once, and a mount that succeeds has one
for each device. -/
def Accounted (J : JsonLib) (fds : List ℕ) (sections : List Json)
    (result : Except CameraFault V4l2MountResult) : Prop :=
  ∀ r, result = .ok r →
    (r.ret = -1 → ∀ n ∈ r.table.opened, r.table.closed.count (n : ℤ) = 1)
      ∧ (r.ret = 0 → OnePerDevice J fds sections r.table r.instances)

variable {front : List (Json × CameraCalls)} {pos : Json} {calls : CameraCalls}
  {t : Descriptors} {instances : List V4l2fsInstance}

@[simp] theorem epicFail_eq (t : Descriptors) (instances : List V4l2fsInstance) :
    epicFail t instances = .ok ⟨-1, t, []⟩ := by
  simp [epicFail, cleanupDevices, Except.map]

/-- What the loop does with the next camera. -/
inductive CameraStep (J : JsonLib) (fds : List ℕ) (front : List (Json × CameraCalls))
    (t : Descriptors) (instances : List V4l2fsInstance) (c : Json × CameraCalls)
    (rest : List (Json × CameraCalls)) : Prop where
  | starts {t' : Descriptors} {inst : V4l2fsInstance} (hstarts : StartsBehind J front c)
      (hone : OnePerDevice J fds ((front ++ [c]).map Prod.fst) t' (instances ++ [inst]))
      (hloop : v4l2MountLoop J t instances (c :: rest)
        = v4l2MountLoop J t' (instances ++ [inst]) rest)
  | ends (hfront : front ≠ []) (hdevice : NoDevice J c)
      (hloop : v4l2MountLoop J t instances (c :: rest) = .error .nullDevice)
  | unopened (hfails : ¬ StartsBehind J front c) (hfirst : front = [] → FailsCleanly J c)
      (hdevice : front ≠ [] → ¬ NoDevice J c)
      (hloop : v4l2MountLoop J t instances (c :: rest) = .ok ⟨-1, t, []⟩)
  | opened {t' : Descriptors} {n : ℕ} (hfails : ¬ StartsBehind J front c)
      (hdevice : ¬ NoDevice J c)
      (hloop : v4l2MountLoop J t instances (c :: rest) = .ok ⟨-1, t', []⟩)
      (hopened : t'.opened = t.opened ++ [t.unused])
      (hclosed : t'.closed = t.closed ++ List.replicate n (t.unused : ℤ))
      (hclean : FailsCleanly J c ↔ n = 1)

theorem type_of_grabberOf {grb : Grabber} (hgrb : grabberOf J pos = some grb) :
    pos.type = .object
      ∧ (jsonArrayFindString J pos (lit "iomethod")).bind v4l2fsGetGrabberByName = some grb := by
  unfold grabberOf at hgrb
  split_ifs at hgrb with htype
  exact ⟨htype, hgrb⟩

theorem v4l2MountLoop_of_no_grabber (hgrb : grabberOf J pos = none)
    {rest : List (Json × CameraCalls)} :
    v4l2MountLoop J t instances ((pos, calls) :: rest) = .ok ⟨-1, t, []⟩ := by
  unfold grabberOf at hgrb
  by_cases htype : pos.type = .object
  · rw [if_pos htype] at hgrb
    simp [v4l2MountLoop, htype, hgrb]
  · simp [v4l2MountLoop, htype]

theorem v4l2MountLoop_of_no_device {grb : Grabber} (hgrb : grabberOf J pos = some grb)
    (hdevice : jsonArrayFindString J pos (lit "device") = none)
    {rest : List (Json × CameraCalls)} : v4l2MountLoop J t instances ((pos, calls) :: rest)
      = if instances = [] then .ok ⟨-1, t, []⟩ else .error .nullDevice := by
  obtain ⟨htype, hname⟩ := type_of_grabberOf hgrb
  simp [v4l2MountLoop, htype, hname, hdevice]

/-- A camera with a grabber and a device is initialized and takes its input, or the mount fails. -/
theorem v4l2MountLoop_cons {grb : Grabber} {device : Bytes} {j : Option ℕ}
    {parent : Option V4l2fsInstance} {ret : ℤ} {t' : Descriptors} {inst : V4l2fsInstance}
    (hgrb : grabberOf J pos = some grb)
    (hdevice : jsonArrayFindString J pos (lit "device") = some device)
    (hj : parentOf instances device = j) (hparent : j.bind (instances[·]?) = parent)
    (hinit : grb.init calls t (sectionInstance J pos device grb j) parent = (ret, t', inst))
    (rest : List (Json × CameraCalls)) : v4l2MountLoop J t instances ((pos, calls) :: rest)
      = if ret = 0 ∧ TakesInput calls then
          v4l2MountLoop J t' (instances ++ [{ inst with initialized := true }]) rest
        else .ok ⟨-1, t', []⟩ := by
  obtain ⟨htype, hname⟩ := type_of_grabberOf hgrb
  simp only [v4l2MountLoop, htype, ne_eq, not_true_eq_false, if_false, hname, hdevice, hj, hparent,
    hinit, epicFail_eq, TakesInput]
  by_cases hret : ret = 0
  · by_cases hset : deviceSetInput calls = 0
    · by_cases hget : deviceGetInput calls < 0
      · simp [hret, hset, hget]
      · simp [hret, hset, hget, Int.not_lt.1 hget]
    · simp [hret, hset]
  · simp [hret]

/-- The instance a device is shared with. -/
theorem parentOf_cases (instances : List V4l2fsInstance) (device : Bytes) :
    ((∀ a ∈ instances, a.device ≠ device) ∧ parentOf instances device = none)
      ∨ ∃ j parent, parentOf instances device = some j ∧ instances[j]? = some parent
        ∧ parent.device = device := by
  rcases hparent : parentOf instances device with _ | j
  · refine .inl ⟨fun a ha heq => ?_, rfl⟩
    obtain ⟨j, hj⟩ := List.mem_iff_getElem?.1 ha
    exact (parent_eq_none_iff (List.length_map _)).1 hparent j (by simp [hj, heq])
  · have hdevice : (instances.map (·.device))[j]? = some device := by
      simpa using List.find?_some hparent
    rw [List.getElem?_map, Option.map_eq_some_iff] at hdevice
    obtain ⟨parent, hj, hsame⟩ := hdevice
    exact .inr ⟨j, parent, rfl, hj, hsame⟩

theorem Grabber.init_shared (grb : Grabber) (calls : CameraCalls) (t : Descriptors)
    (data parent : V4l2fsInstance) : ∃ data' : V4l2fsInstance, data'.fd = parent.fd
      ∧ data'.toGrabberInstance = { data.toGrabberInstance with
        width := parent.width
        height := parent.height }
      ∧ grb.init calls t data (some parent) = (0, t, data') := by
  cases grb with
  | read | mmap | userptr => refine ⟨_, ?_, ?_, rfl⟩ <;> rfl

theorem OnePerDevice.device_iff (h : OnePerDevice J fds (front.map Prod.fst) t instances)
    {device : Bytes} : (∃ a ∈ instances, a.device = device)
      ↔ ∃ d ∈ front, jsonArrayFindString J d.1 (lit "device") = some device := by
  have hmem : some device ∈ instances.map (fun inst => some inst.device)
      ↔ some device ∈ (front.map Prod.fst).map (jsonArrayFindString J · (lit "device")) := by
    rw [h.devices]
  simpa only [List.map_map, List.mem_map, Option.some.injEq, Function.comp_apply] using hmem

theorem OnePerDevice.eq_nil_iff (h : OnePerDevice J fds (front.map Prod.fst) t instances) :
    instances = [] ↔ front = [] := by
  have hlength := congrArg List.length h.devices
  simp only [List.length_map] at hlength
  rw [← List.length_eq_zero_iff, ← List.length_eq_zero_iff, hlength]

theorem startsBehind_iff_of_new (calls : CameraCalls) {grb : Grabber} {device : Bytes}
    (hgrb : grabberOf J pos = some grb)
    (hdevice : jsonArrayFindString J pos (lit "device") = some device)
    (hnew : ¬ ∃ d ∈ front, jsonArrayFindString J d.1 (lit "device") = some device) :
    StartsBehind J front (pos, calls)
      ↔ CommonInits calls ∧ grb.OwnInits calls ∧ TakesInput calls := by
  constructor
  · rintro ⟨grb', device', hg, hd, hinit, htakes⟩
    obtain rfl : grb' = grb := Option.some.inj (hg.symm.trans hgrb)
    obtain rfl : device' = device := Option.some.inj (hd.symm.trans hdevice)
    obtain ⟨hcommon, hown⟩ := hinit.resolve_left hnew
    exact ⟨hcommon, hown, htakes⟩
  · rintro ⟨hcommon, hown, htakes⟩
    exact ⟨grb, device, hgrb, hdevice, .inr ⟨hcommon, hown⟩, htakes⟩

theorem failsCleanly_iff (calls : CameraCalls) {grb : Grabber} {device : Bytes}
    (hgrb : grabberOf J pos = some grb)
    (hdevice : jsonArrayFindString J pos (lit "device") = some device) :
    FailsCleanly J (pos, calls)
      ↔ calls.openDevice = false ∨ CommonInits calls ∧ ¬ grb.OwnInits calls := by
  simp [FailsCleanly, hgrb, hdevice]

/-- A camera with a device of its own is initialized. -/
theorem OnePerDevice.cameraStep_new (h : OnePerDevice J fds (front.map Prod.fst) t instances)
    {grb : Grabber} {device : Bytes} (hgrb : grabberOf J pos = some grb)
    (hdevice : jsonArrayFindString J pos (lit "device") = some device)
    (hnew : ∀ a ∈ instances, a.device ≠ device) (hnone : parentOf instances device = none)
    (calls : CameraCalls) (rest : List (Json × CameraCalls)) :
    CameraStep J fds front t instances (pos, calls) rest := by
  rcases hinit : grb.init calls t (sectionInstance J pos device grb none) none
    with ⟨ret, t', inst⟩
  have hloop := v4l2MountLoop_cons hgrb hdevice hnone rfl hinit rest
  have hlacks : ¬ NoDevice J (pos, calls) := fun hd => by cases hd.2.symm.trans hdevice
  have hother : ¬ ∃ d ∈ front, jsonArrayFindString J d.1 (lit "device") = some device :=
    fun hd => by
      obtain ⟨a, ha, hsame⟩ := h.device_iff.2 hd
      exact hnew a ha hsame
  have hstarts := startsBehind_iff_of_new calls hgrb hdevice hother
  have hclean := failsCleanly_iff calls hgrb hdevice
  cases Grabber.init_initResult hinit with
  | unopened hopen =>
    refine .unopened (fun hs => ?_) (fun _ => hclean.2 (.inl hopen)) (fun _ => hlacks)
      (hloop.trans (if_neg (by simp)))
    simp [(hstarts.1 hs).1.1] at hopen
  | closedTwice hopen hcommon =>
    refine .opened (n := 2) (fun hs => hcommon (hstarts.1 hs).1) hlacks
      (hloop.trans (if_neg (by simp))) rfl ?_ ?_
    · simp [Descriptors.close, Descriptors.openFd]
    · simp [hclean, hopen, hcommon]
  | closedOnce hcommon hown =>
    refine .opened (n := 1) (fun hs => hown (hstarts.1 hs).2.1) hlacks
      (hloop.trans (if_neg (by simp))) rfl ?_ ?_
    · simp [Descriptors.close, Descriptors.openFd]
    · simp [hclean, hcommon, hown]
  | started hcommon hown hcount hcount' =>
    rw [if_congr (and_iff_right rfl) rfl rfl] at hloop
    split_ifs at hloop with htakes
    · refine .starts (hstarts.2 ⟨hcommon, hown, htakes⟩) ?_ hloop
      rw [List.map_append]
      exact h.openFd hdevice hnew rfl
    · refine .opened (n := 0) (fun hs => htakes (hstarts.1 hs).2.2) hlacks hloop rfl ?_ ?_
      · simp [Descriptors.openFd]
      · simp [hclean, hcommon, hown, hcommon.1]

/-- A camera with the device of an earlier one only takes its input. -/
theorem OnePerDevice.cameraStep_shared (h : OnePerDevice J fds (front.map Prod.fst) t instances)
    {grb : Grabber} {device : Bytes} (hgrb : grabberOf J pos = some grb)
    (hdevice : jsonArrayFindString J pos (lit "device") = some device) {j : ℕ}
    {parent : V4l2fsInstance} (hj : parentOf instances device = some j)
    (hparent : instances[j]? = some parent) (hsame : parent.device = device)
    (calls : CameraCalls) (rest : List (Json × CameraCalls)) :
    CameraStep J fds front t instances (pos, calls) rest := by
  have hmem := List.mem_of_getElem? hparent
  obtain ⟨data, hfd, hdata, hinit⟩ := Grabber.init_shared grb calls t
    (sectionInstance J pos device grb (some j)) parent
  have hdata : data.device = device := congrArg GrabberInstance.device hdata
  have hloop := v4l2MountLoop_cons hgrb hdevice hj hparent hinit rest
  rw [if_congr (and_iff_right rfl) rfl rfl] at hloop
  split_ifs at hloop with htakes
  · refine .starts ⟨grb, device, hgrb, hdevice, .inl ?_, htakes⟩ ?_ hloop
    · exact h.device_iff.1 ⟨parent, hmem, hsame⟩
    · rw [List.map_append]
      exact h.share (hdevice.trans (congrArg some hdata.symm)) hmem (hsame.trans hdata.symm) hfd
  · refine .unopened ?_ ?_ ?_ hloop
    · rintro ⟨-, -, -, -, -, ht⟩
      exact htakes ht
    · intro hf
      simp [h.eq_nil_iff.2 hf] at hmem
    · exact fun _ hd => by cases hd.2.symm.trans hdevice

/-- What the loop does with the next camera, as long as the others have started. -/
theorem OnePerDevice.cameraStep (h : OnePerDevice J fds (front.map Prod.fst) t instances)
    (c : Json × CameraCalls) (rest : List (Json × CameraCalls)) :
    CameraStep J fds front t instances c rest := by
  obtain ⟨pos, calls⟩ := c
  rcases hgrb : grabberOf J pos with _ | grb
  · refine .unopened ?_ (fun _ => .inl hgrb) (fun _ hd => hd.1 hgrb) ?_
    · rintro ⟨grb, -, hg, -⟩
      cases hgrb.symm.trans hg
    · exact v4l2MountLoop_of_no_grabber hgrb
  rcases hdevice : jsonArrayFindString J pos (lit "device") with _ | device
  · have hfails : ¬ StartsBehind J front (pos, calls) := by
      rintro ⟨-, device, -, hd, -⟩
      cases hdevice.symm.trans hd
    by_cases hnil : instances = []
    · refine .unopened hfails (fun _ => .inr (.inl hdevice)) (fun hf => ?_) ?_
      · exact absurd (h.eq_nil_iff.1 hnil) hf
      · rw [v4l2MountLoop_of_no_device hgrb hdevice, if_pos hnil]
    · refine .ends (fun hf => hnil (h.eq_nil_iff.2 hf)) ⟨by simp [hgrb], hdevice⟩ ?_
      rw [v4l2MountLoop_of_no_device hgrb hdevice, if_neg hnil]
  rcases parentOf_cases instances device with ⟨hnew, hnone⟩ | ⟨j, parent, hj, hparent, hsame⟩
  · exact h.cameraStep_new hgrb hdevice hnew hnone calls rest
  · exact h.cameraStep_shared hgrb hdevice hj hparent hsame calls rest

theorem StartsBehind.not_noDevice {c : Json × CameraCalls} (h : StartsBehind J front c) :
    ¬ NoDevice J c := by
  obtain ⟨-, device, -, hdevice, -⟩ := h
  exact fun hd => by cases hd.2.symm.trans hdevice

theorem StartsBehind.not_failsCleanly {c : Json × CameraCalls} (h : StartsBehind J [] c) :
    ¬ FailsCleanly J c := by
  obtain ⟨grb, device, hgrb, hdevice, hinit, -⟩ := h
  obtain ⟨hcommon, hown⟩ := hinit.resolve_left (by simp)
  rw [failsCleanly_iff _ hgrb hdevice]
  simp [hcommon.1, hown]

theorem OnePerDevice.opened_eq_nil_iff
    (h : OnePerDevice J fds (front.map Prod.fst) t instances) : t.opened = [] ↔ front = [] := by
  rw [← h.eq_nil_iff, List.eq_nil_iff_forall_not_mem, List.eq_nil_iff_forall_not_mem]
  constructor
  · intro hnone a ha
    obtain ⟨n, hn, -⟩ := h.used a ha
    exact hnone n hn
  · intro hnone n hn
    obtain ⟨a, ha, -⟩ := h.needed n hn
    exact hnone a ha

theorem accounted_failed_iff {sections : List Json} : Accounted J fds sections (.ok ⟨-1, t, []⟩)
    ↔ ∀ n ∈ t.opened, t.closed.count (n : ℤ) = 1 := by
  refine ⟨fun h => (h _ rfl).1 rfl, fun h r hr => ?_⟩
  obtain rfl := Except.ok.inj hr
  exact ⟨fun _ => h, fun h0 => by simp at h0⟩

theorem mountsCleanly_of_not_startsBehind {c : Json × CameraCalls}
    (hfails : ¬ StartsBehind J front c) (rest : List (Json × CameraCalls)) :
    MountsCleanly J front (c :: rest)
      ↔ (front = [] ∧ FailsCleanly J c) ∨ (front ≠ [] ∧ NoDevice J c) := by
  simp [MountsCleanly, hfails]

theorem accounted_loop_iff (rest : List (Json × CameraCalls)) :
    ∀ {front : List (Json × CameraCalls)} {t : Descriptors} {instances : List V4l2fsInstance},
      OnePerDevice J fds (front.map Prod.fst) t instances →
        (Accounted J fds ((front ++ rest).map Prod.fst) (v4l2MountLoop J t instances rest)
          ↔ MountsCleanly J front rest) := by
  induction rest with
  | nil =>
    intro front t instances h
    refine iff_of_true (fun r hr => ?_) trivial
    obtain rfl := Except.ok.inj hr
    exact ⟨fun h1 => by simp at h1, fun _ => by rwa [List.append_nil]⟩
  | cons c rest ih =>
    intro front t instances h
    -- the cameras in front have all started, and nothing has been closed
    cases h.cameraStep c rest with
    | starts hstarts hone hloop =>
      have hrest := ih hone
      rw [List.append_assoc, List.singleton_append] at hrest
      rw [hloop, hrest, MountsCleanly]
      refine ⟨fun hclean => .inl ⟨hstarts, hclean⟩, ?_⟩
      rintro (⟨-, hclean⟩ | ⟨rfl, hfails⟩ | ⟨-, hdevice⟩)
      · exact hclean
      · exact absurd hfails hstarts.not_failsCleanly
      · exact absurd hdevice hstarts.not_noDevice
    | ends hfront hdevice hloop =>
      rw [hloop]
      exact iff_of_true (fun r hr => by cases hr) (.inr (.inr ⟨hfront, hdevice⟩))
    | unopened hfails hfirst hdevice hloop =>
      rw [hloop, accounted_failed_iff, h.closed, mountsCleanly_of_not_startsBehind hfails]
      by_cases hfront : front = []
      · exact iff_of_true (by simp [h.opened_eq_nil_iff.2 hfront]) (.inl ⟨hfront, hfirst hfront⟩)
      · refine iff_of_false (fun hall => hfront (h.opened_eq_nil_iff.1 ?_)) ?_
        · exact List.eq_nil_iff_forall_not_mem.2 fun n hn => by simpa using hall n hn
        · exact fun hor => hor.elim (fun hf => hfront hf.1) fun hf => hdevice hf.1 hf.2
    | opened hfails hdevice hloop hopened hclosed hclean =>
      rw [hloop, accounted_failed_iff, hopened, hclosed, h.closed,
        mountsCleanly_of_not_startsBehind hfails]
      by_cases hfront : front = []
      · simp [h.opened_eq_nil_iff.2 hfront, hfront, hclean]
      · -- what the others opened is not closed
        refine iff_of_false (fun hall => ?_) fun hor =>
          hor.elim (fun hf => hfront hf.1) fun hf => hdevice hf.2
        obtain ⟨n, hn⟩ := List.exists_mem_of_ne_nil _ (mt h.opened_eq_nil_iff.1 hfront)
        have hne : n ≠ t.unused := fun heq =>
          unused_not_mem t ((h.isOpen _).2 (.inr (heq ▸ hn)))
        have := hall n (List.mem_append_left _ hn)
        simp [List.count_replicate, hne.symm] at this

end Cameras

/-- The camera sections of a mountpoint. -/
def cameraSections (props : Json) : List Json :=
  match jsonArrayFind props (lit "devices") with
  | some (.array devices) => devices
  | _ => []

/-- For every list of sections and whatever is called for their cameras: the descriptors are
accounted for exactly if no camera fails but the first, and that cleanly. -/
theorem v4l2Mount_accounted_iff (J : JsonLib) (props : Json) (alloc : Bool)
    (calls : ℕ → CameraCalls) (fds : List ℕ) :
    Accounted J fds (cameraSections props) (v4l2Mount J props alloc calls fds)
      ↔ (alloc = true →
        MountsCleanly J [] ((cameraSections props).zipIdx.map fun d => (d.1, calls d.2))) := by
  have hnothing (sections : List Json) : Accounted J fds sections (.ok ⟨-1, { fds := fds }, []⟩) :=
    accounted_failed_iff.2 (by simp)
  unfold v4l2Mount cameraSections
  rcases hfind : jsonArrayFind props (lit "devices") with _ | j
  · exact iff_of_true (hnothing _) fun _ => trivial
  cases j with
  | array devices =>
    cases alloc with
    | false => exact iff_of_true (hnothing _) nofun
    | true =>
      have hnil : OnePerDevice J fds (([] : List (Json × CameraCalls)).map Prod.fst)
        { fds := fds } [] := onePerDevice_nil
      have hloop := accounted_loop_iff (devices.zipIdx.map fun d => (d.1, calls d.2)) hnil
      have hsections : (devices.zipIdx.map fun d => (d.1, calls d.2)).map Prod.fst = devices := by
        rw [List.map_map]
        exact List.zipIdx_map_fst 0 devices
      rw [List.nil_append, hsections] at hloop
      simpa using hloop
  | _ => exact iff_of_true (hnothing _) fun _ => trivial

/-- Two cameras whose frames are mapped. -/
def twoCameras : Json := .object [(lit "devices", .array [
  .object [(lit "device", .string (lit "/dev/video0")), (lit "iomethod", .string (lit "mmap"))],
  .object [(lit "device", .string (lit "/dev/video1")), (lit "iomethod", .string (lit "mmap"))]])]

/-- The second camera cannot be opened, and the descriptor of the first stays open. -/
theorem first_camera_left_open : ¬ ∀ (J : JsonLib) (props : Json) (alloc : Bool)
    (calls : ℕ → CameraCalls) (fds : List ℕ),
    Accounted J fds (cameraSections props) (v4l2Mount J props alloc calls fds) := by
  intro h
  have hret : ∃ r, v4l2Mount .plain twoCameras true (fun i => { openDevice := i == 0 }) [0, 1, 2]
      = .ok r ∧ r.ret = -1 ∧ r.table.opened = [3] ∧ r.table.closed = [] := ⟨_, rfl, rfl, rfl, rfl⟩
  obtain ⟨r, hr, hret, hopened, hclosed⟩ := hret
  have := (h _ _ _ _ _ r hr).1 hret 3 (by simp [hopened])
  simp [hclosed] at this

/-- A camera that is none closes its descriptor twice. -/
example : ((v4l2Mount .plain twoCameras true (fun _ => { queryCap := none }) [0, 1, 2]).toOption.map
    fun r => (r.ret, r.table.opened, r.table.closed)) = some (-1, [3], [3, 3]) := by
  decide

section Erased

/-- What the calls for a camera come to is what it answers. -/
structure Answers (J : JsonLib) (c : Json × CameraCalls) (libs : CameraLibs) : Prop where
  init : libs.init = true
    ↔ ∀ grb, grabberOf J c.1 = some grb → CommonInits c.2 ∧ grb.OwnInits c.2
  input : libs.setInput = true ∧ libs.getInput = true ↔ TakesInput c.2

/-- The result without descriptors. -/
def erased : Except CameraFault V4l2MountResult → Except MountFault (Option (List GrabberInstance))
  | .ok r => .ok (if r.ret = 0 then some (r.instances.map (·.toGrabberInstance)) else none)
  | .error _ => .error .nullString

variable {pos : Json} {calls : CameraCalls} {libs : CameraLibs} {t : Descriptors}
  {instances : List V4l2fsInstance}

theorem parentOf_erased (instances : List V4l2fsInstance) (device : Bytes) :
    ((List.range (instances.map (·.toGrabberInstance)).length).reverse.find? fun j =>
      ((instances.map (·.toGrabberInstance)).map (·.device))[j]? = some device)
        = parentOf instances device := by
  rw [List.length_map, List.map_map]
  rfl

theorem init_erased {grb : Grabber} (hgrb : grabberOf J pos = some grb)
    (hans : Answers J (pos, calls) libs) (device : Bytes) (t : Descriptors)
    (instances : List V4l2fsInstance) : ∃ ret t' inst,
      grb.init calls t (sectionInstance J pos device grb (parentOf instances device))
        ((parentOf instances device).bind (instances[·]?)) = (ret, t', inst)
      ∧ (ret = 0 ↔ ¬ (parentOf instances device = none ∧ libs.init = false))
      ∧ (ret = 0 → inst.toGrabberInstance =
        let shared := (parentOf instances device).bind
          ((instances.map (·.toGrabberInstance))[·]?)
        { device := device
          input := cameraNumber J pos (lit "input")
          width := (shared.map (·.width)).getD (cameraNumber J pos (lit "width"))
          height := (shared.map (·.height)).getD (cameraNumber J pos (lit "height"))
          grb := grb
          parent := parentOf instances device }) := by
  rcases parentOf_cases instances device with ⟨-, hnone⟩ | ⟨j, parent, hj, hparent, -⟩
  · rw [hnone]
    rcases hinit : grb.init calls t (sectionInstance J pos device grb none) none
      with ⟨ret, t', inst⟩
    have hresult := Grabber.init_initResult hinit
    refine ⟨ret, t', inst, hinit, ?_, fun hret => ?_⟩
    · rw [hresult.ret_eq_zero_iff]
      simpa [hgrb] using hans.init.symm
    · subst hret
      exact hresult.toGrabberInstance_eq
  · obtain ⟨data, -, hdata, hinit⟩ := Grabber.init_shared grb calls t
      (sectionInstance J pos device grb (some j)) parent
    rw [hj]
    refine ⟨0, t, data, by rwa [Option.bind_some, hparent], by simp, fun _ => ?_⟩
    simp [hdata, hparent, sectionInstance]

/-- Without the descriptors the mount is the one of a camera that answers. -/
theorem v4l2MountLoop_erased {rest : List (Json × CameraCalls)} {rest' : List (Json × CameraLibs)}
    (hrest : List.Forall₂ (fun c d => c.1 = d.1 ∧ Answers J c d.2) rest rest') :
    ∀ (t : Descriptors) (instances : List V4l2fsInstance),
      AuraHttpd.v4l2MountLoop J (instances.map (·.toGrabberInstance)) rest'
        = erased (v4l2MountLoop J t instances rest) := by
  induction hrest with
  | nil => exact fun t instances => rfl
  | @cons c d rest rest' hcd _ ih =>
    intro t instances
    obtain ⟨pos, calls⟩ := c
    obtain ⟨pos', libs⟩ := d
    obtain ⟨rfl, hans⟩ : pos = pos' ∧ Answers J (pos, calls) libs := hcd
    by_cases htype : pos.type = .object
    swap
    · simp [AuraHttpd.v4l2MountLoop, v4l2MountLoop, htype, erased]
    rcases hname : (jsonArrayFindString J pos (lit "iomethod")).bind v4l2fsGetGrabberByName
      with _ | grb
    · simp [AuraHttpd.v4l2MountLoop, v4l2MountLoop, htype, hname, erased]
    rcases hdevice : jsonArrayFindString J pos (lit "device") with _ | device
    · by_cases hnil : instances = []
      · simp [AuraHttpd.v4l2MountLoop, v4l2MountLoop, htype, hname, hdevice, hnil, erased]
      · simp [AuraHttpd.v4l2MountLoop, v4l2MountLoop, htype, hname, hdevice, hnil, erased]
    have hgrb : grabberOf J pos = some grb := by rw [grabberOf, if_pos htype, hname]
    obtain ⟨ret, t', inst, hinit, hret, hinst⟩ := init_erased hgrb hans device t instances
    rw [AuraHttpd.v4l2MountLoop, if_neg (not_not.2 htype), hname, hdevice,
      v4l2MountLoop_cons hgrb hdevice rfl rfl hinit]
    have hfails : (parentOf instances device = none ∧ libs.init = false)
        ∨ libs.setInput = false ∨ libs.getInput = false ↔ ¬ (ret = 0 ∧ TakesInput calls) := by
      rw [hret, ← hans.input]
      cases libs.setInput <;> cases libs.getInput <;> simp
    simp only [parentOf_erased]
    by_cases hstarts : ret = 0 ∧ TakesInput calls
    · rw [if_pos hstarts, if_neg (mt hfails.1 (not_not.2 hstarts)), ← ih, List.map_append,
        List.map_singleton, hinst hstarts.1]
    · rw [if_neg hstarts, if_pos (hfails.2 hstarts)]
      rfl

theorem v4l2Mount_erased {props : Json} {calls : ℕ → CameraCalls} {cameras : ℕ → CameraLibs}
    (hans : ∀ (i : ℕ) pos, (cameraSections props)[i]? = some pos →
      Answers J (pos, calls i) (cameras i)) (fds : List ℕ) :
    AuraHttpd.v4l2Mount J props cameras = erased (v4l2Mount J props true calls fds) := by
  unfold AuraHttpd.v4l2Mount v4l2Mount
  unfold cameraSections at hans
  rcases hfind : jsonArrayFind props (lit "devices") with _ | j
  · rfl
  rw [hfind] at hans
  cases j with
  | array devices =>
    refine v4l2MountLoop_erased ?_ { fds := fds } []
    rw [List.forall₂_map_left_iff, List.forall₂_map_right_iff, List.forall₂_same]
    intro d hd
    exact ⟨rfl, hans d.2 d.1 (List.mem_zipIdx_iff_getElem?.1 hd)⟩
  | _ => rfl

end Erased

end AuraHttpd.Cameras
