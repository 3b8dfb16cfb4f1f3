import AuraHttpd.FsNode
import AuraHttpd.Lib.Percent

/-!
# The method a path names

libevent compares the decoded path of a request with the registered ones, but hands the path over as
it came.  `get_call_methodname` skips as many characters of it as the mountpoint and the base path
have, which ends up before the method's name where no character came encoded, and only there: every
escape is longer than what it stands for.
-/

namespace AuraHttpd

open CString

/-- libevent dispatches requests for the path `p` to the registered `route`. -/
def DispatchedTo (p route : Bytes) : Prop := cstr (percentDecode p) = route

theorem getCallMethodname_append (mpoint : Mpoint) (basepath name : Bytes) :
    getCallMethodname mpoint (mpoint.mountpoint ++ (basepath ++ name)) basepath = some name := by
  have hle := (List.prefix_append (mpoint.mountpoint ++ basepath) name).length_le
  rw [← List.append_assoc, getCallMethodname, if_pos hle, List.drop_left]

/-- The length of a path in which the name is found. -/
theorem length_of_getCallMethodname {mpoint : Mpoint} {path basepath name : Bytes}
    (h : getCallMethodname mpoint path basepath = some name) :
    path.length = (mpoint.mountpoint ++ (basepath ++ name)).length := by
  unfold getCallMethodname at h
  split_ifs at h with hlen
  have hname := congrArg List.length (Option.some.inj h)
  simp only [List.length_drop, List.length_append] at hname hlen ⊢
  omega

/-- For every path that is dispatched to the route of the method `name`: that name is found exactly
where nothing in the path came encoded. -/
theorem methodname_iff (mpoint : Mpoint) (isAsync : Bool) (name p : Bytes) (hp : 0 ∉ p)
    (h : DispatchedTo p (mpoint.mountpoint ++ callPath isAsync name)) :
    getCallMethodname mpoint p (callBase isAsync) = some name ↔ ¬ HasEscape p := by
  unfold DispatchedTo callPath at h
  constructor
  · intro hname hesc
    have hlen := length_of_getCallMethodname hname
    rw [← h] at hlen
    have hcut := (List.takeWhile_sublist (· ≠ 0) (l := percentDecode p)).length_le
    have hlt := percentDecode_length_lt hesc
    unfold cstr at hlen
    omega
  · intro hesc
    have hself : cstr (percentDecode p) = p := by
      rw [percentDecode_eq_self hesc]
      exact cstr_eq_self fun c hc h0 => hp (h0 ▸ hc)
    rw [← hself, h, getCallMethodname_append]

/-- A path without escapes. -/
theorem methodname_plain : getCallMethodname ⟨0, lit "/n"⟩ (lit "/n/call/f") (callBase false)
    = some (lit "f") :=
  (methodname_iff ⟨0, lit "/n"⟩ false (lit "f") (lit "/n/call/f") (by decide) rfl).2
    (by decide)

/-- The name is encoded in the path, and not found. -/
theorem encoded_methodname : ¬ ∀ (mpoint : Mpoint) (isAsync : Bool) (name p : Bytes), 0 ∉ p →
    DispatchedTo p (mpoint.mountpoint ++ callPath isAsync name) →
    getCallMethodname mpoint p (callBase isAsync) = some name := by
  intro h
  have hname := h ⟨0, lit "/n"⟩ false (lit "f") (lit "/n/call/%66") (by decide) rfl
  revert hname
  decide

end AuraHttpd
