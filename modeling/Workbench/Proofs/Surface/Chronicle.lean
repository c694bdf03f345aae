import Workbench.Proofs.Surface.Stray

/-!
# Proofs/Surface/Chronicle — every surface that was mounted is accounted for

The **chronicle** of a preview has every call that the preview made of its host, with what the host
made of it (`Answers`).  A surface is asked for its end at most once, and before the next one is
mounted; so the surfaces that were asked, followed by the current one, are all that were ever
mounted, in order (`Accounts.asked`).  Whatever else is said of surfaces is read off this list:
which are live, which are torn down, and which were kept against the preview's will.
-/

namespace Workbench

/-! ## Calls -/

namespace Host

/-- A call of a host, with what came of it. -/
inductive Call
  | mount (document : Text) (result : Except Error SurfaceId)
  | teardown (id : SurfaceId) (result : Except Error Unit)

namespace Call

/-- The surface that a mount gave. -/
def mounted? : Call → Option SurfaceId
  | mount _ (.ok id) => some id
  | mount _ (.error _) | teardown _ _ => none

/-- The surface that was to be torn down. -/
def asked? : Call → Option SurfaceId
  | teardown id _ => some id
  | mount _ _ => none

/-- The surface that was torn down. -/
def released? : Call → Option SurfaceId
  | teardown id (.ok ()) => some id
  | teardown _ (.error _) | mount _ _ => none

/-- The surface that was to be torn down, and was not. -/
def refused? : Call → Option SurfaceId
  | teardown id (.error _) => some id
  | teardown _ (.ok ()) | mount _ _ => none

/-- What went wrong. -/
def fault? : Call → Option Error
  | mount _ (.error e) | teardown _ (.error e) => some e
  | mount _ (.ok _) | teardown _ (.ok _) => none

end Call

/-- The calls that lead from one host to another, each with the answer that the host gave. -/
inductive Answers : Host → List Call → Host → Prop
  | done {h : Host} : Answers h [] h
  | mount {h h' : Host} {calls : List Call} (document : Text) :
      Answers (h.mount document).2 calls h' →
      Answers h (.mount document (h.mount document).1 :: calls) h'
  | teardown {h h' : Host} {calls : List Call} (id : SurfaceId) :
      Answers (h.teardown id).2 calls h' →
      Answers h (.teardown id (h.teardown id).1 :: calls) h'

theorem Answers.append {h h' h'' : Host} {calls more : List Call} (hcalls : Answers h calls h')
    (hmore : Answers h' more h'') : Answers h (calls ++ more) h'' := by
  induction hcalls with
  | done => exact hmore
  | mount document _ ih => exact .mount document (ih hmore)
  | teardown id _ ih => exact .teardown id (ih hmore)

/-- What is asked for its end is torn down or kept. -/
theorem perm_asked (calls : List Call) :
    (calls.filterMap Call.refused? ++ calls.filterMap Call.released?).Perm
      (calls.filterMap Call.asked?) := by
  induction calls with
  | nil => exact .refl _
  | cons call calls ih =>
    match call with
    | .mount _ _ => exact ih
    | .teardown id (.error _) => exact ih.cons id
    | .teardown id (.ok ()) => exact List.perm_middle.trans (ih.cons id)

theorem released_sublist_asked (calls : List Call) :
    (calls.filterMap Call.released?).Sublist (calls.filterMap Call.asked?) := by
  induction calls with
  | nil => exact .slnil
  | cons call calls ih =>
    match call with
    | .mount _ _ => exact ih
    | .teardown id (.error _) => exact ih.cons id
    | .teardown id (.ok ()) => exact ih.cons_cons id

/-- The fault of a teardown that names no live surface. -/
def notMounted (id : SurfaceId) : Error :=
  .surface ("surface " ++ Text.ofNat id ++ " is not mounted")

/-- A host that is asked for a live surface never says that it is none. -/
theorem teardown_ne_notMounted {h : Host} {id : SurfaceId} (hid : id ∈ h.ids) (other : SurfaceId) :
    (h.teardown id).1 ≠ .error (notMounted other) := by
  have hlive : (h.live.lookup id).isNone = false := by
    obtain ⟨⟨_, document⟩, hmem, rfl⟩ := List.mem_map.mp hid
    rw [Option.isNone_eq_false_iff, List.lookup_isSome_iff]
    exact ⟨_, hmem, beq_self_eq_true _⟩
  unfold teardown
  dsimp only
  rw [hlive]
  split
  · simp [notMounted]
  · exact nofun

theorem teardown_live_subset (h : Host) (id : SurfaceId) :
    (h.teardown id).2.live ⊆ h.live := by
  unfold teardown
  dsimp only
  split
  · exact List.Subset.refl _
  · split
    · exact List.Subset.refl _
    · exact List.filter_subset_self h.live

theorem mount_ne_notMounted (h : Host) (document : Text) (other : SurfaceId) :
    (h.mount document).1 ≠ .error (notMounted other) := by
  unfold mount
  dsimp only
  split
  · simp [notMounted]
  · exact nofun

end Host

/-! ## Actions -/

namespace Preview

/-- What is asked of a preview. -/
inductive Action
  | render (document : Text)
  | discard
  deriving DecidableEq, Repr

/-- What an action makes of a preview. -/
def act (p : Preview) : Action → Preview
  | .render document => (p.render document).2
  | .discard => p.discard.2

/-- What actions make of a preview, one after the other. -/
def actAll (p : Preview) (actions : List Action) : Preview := actions.foldl act p

/-- The call that a discard makes: none, if nothing is shown. -/
def discardCalls (p : Preview) : List Host.Call :=
  p.current.toList.map fun old => .teardown old (p.host.teardown old).1

/-- The calls that an action makes.  Nothing is mounted behind a discard that failed. -/
def calls (p : Preview) : Action → List Host.Call
  | .discard => p.discardCalls
  | .render document =>
    p.discardCalls ++
      match p.discard with
      | (.error _, _) => []
      | (.ok (), q) => [.mount document (q.host.mount document).1]

/-- The calls that actions make, one after the other. -/
def chronicle (p : Preview) : List Action → List Host.Call
  | [] => []
  | action :: actions => p.calls action ++ (p.act action).chronicle actions

/-- A preview on a host that was never called. -/
def start (refusals : Refusals) : Preview := { host := { refusals } }

variable {p : Preview} {calls : List Host.Call}

theorem discardCalls_of_none (hcurrent : p.current = none) : p.discardCalls = [] := by
  rw [discardCalls, hcurrent]
  rfl

theorem discardCalls_of_some {old : SurfaceId} (hcurrent : p.current = some old) :
    p.discardCalls = [.teardown old (p.host.teardown old).1] := by
  rw [discardCalls, hcurrent]
  rfl

/-- A render is a discard that failed, or one that did not with a mount behind it. -/
theorem render_calls_cases (p : Preview) (document : Text) :
    ((p.render document).2 = p.discard.2 ∧ p.calls (.render document) = p.discardCalls) ∨
    (p.render document = ((p.discard.2.host.mount document).1,
        ⟨(p.discard.2.host.mount document).2, (p.discard.2.host.mount document).1.toOption⟩) ∧
      p.calls (.render document) =
        p.discardCalls ++ [.mount document (p.discard.2.host.mount document).1]) := by
  have hnone : p.discard.2.current = none := p.discard_current
  unfold render calls
  split
  · next hdiscard =>
    rw [hdiscard]
    exact .inl ⟨rfl, List.append_nil _⟩
  · next q hdiscard =>
    rw [hdiscard] at hnone ⊢
    dsimp only at hnone ⊢
    refine .inr ⟨?_, rfl⟩
    split
    · next hmount =>
      rw [hmount, hnone]
      rfl
    · next hmount =>
      rw [hmount]
      rfl

/-! ### The chronicle is what the host was asked -/

theorem answers_discard (p : Preview) :
    Host.Answers p.host p.discardCalls p.discard.2.host := by
  cases hcurrent : p.current with
  | none =>
    rw [discard_of_none hcurrent, discardCalls_of_none hcurrent]
    exact .done
  | some old =>
    rw [discard_of_some hcurrent, discardCalls_of_some hcurrent]
    exact .teardown old .done

theorem answers_act (p : Preview) (action : Action) :
    Host.Answers p.host (p.calls action) (p.act action).host := by
  cases action with
  | discard => exact p.answers_discard
  | render document =>
    rw [act]
    rcases p.render_calls_cases document with ⟨hrender, hcalls⟩ | ⟨hrender, hcalls⟩
    · rw [hrender, hcalls]
      exact p.answers_discard
    · rw [hrender, hcalls]
      exact p.answers_discard.append (.mount document .done)

theorem answers_actAll (p : Preview) (actions : List Action) :
    Host.Answers p.host (p.chronicle actions) (p.actAll actions).host := by
  induction actions generalizing p with
  | nil => exact .done
  | cons action actions ih => exact (p.answers_act action).append (ih (p.act action))

/-! ### What the chronicle tells -/

/-- **What a chronicle tells of a preview**: each surface that was mounted was asked for its end
once, but for the one that is current. -/
structure Tells (calls : List Host.Call) (p : Preview) : Prop where
  mounted : calls.filterMap Host.Call.mounted? = List.range' 1 p.host.mounted
  asked : calls.filterMap Host.Call.asked? ++ p.current.toList = List.range' 1 p.host.mounted
  live : p.host.ids = calls.filterMap Host.Call.refused? ++ p.current.toList
  tornDown : p.host.tornDown = calls.filterMap Host.Call.released?
  faultless : ∀ id, Host.notMounted id ∉ calls.filterMap Host.Call.fault?

theorem Tells.start (refusals : Refusals) : Tells [] (start refusals) where
  mounted := rfl
  asked := rfl
  live := rfl
  tornDown := rfl
  faultless _ := List.not_mem_nil

/-- The current surface was never asked for its end. -/
theorem Tells.current_notMem (h : Tells calls p) {id : SurfaceId} (hcurrent : p.current = some id) :
    id ∉ calls.filterMap Host.Call.asked? := by
  have hnodup : (calls.filterMap Host.Call.asked? ++ [id]).Nodup := by
    rw [← Option.toList_some, ← hcurrent, h.asked]
    exact List.nodup_range'
  exact fun hmem => List.disjoint_of_nodup_append hnodup hmem List.mem_cons_self

/-- A discard asks for the end of the current surface, which stays if that is refused; in either
case it is current no more. -/
theorem Tells.discard (h : Tells calls p) : Tells (calls ++ p.discardCalls) p.discard.2 := by
  cases hcurrent : p.current with
  | none =>
    rw [discard_of_none hcurrent, discardCalls_of_none hcurrent, List.append_nil]
    exact h
  | some old =>
    rw [discard_of_some hcurrent, discardCalls_of_some hcurrent]
    have ⟨hmounted, hasked, hlive, htornDown, hfaultless⟩ := h
    rw [hcurrent, Option.toList_some] at hasked hlive
    have hmem : old ∈ p.host.ids := by
      rw [hlive]
      exact List.mem_append_right _ List.mem_cons_self
    have hnever : old ∉ calls.filterMap Host.Call.asked? := h.current_notMem hcurrent
    have hfault := Host.teardown_ne_notMounted hmem
    rcases Host.teardown_cases hmem with ⟨e, hresult, -, hhost⟩ | ⟨hresult, -, hhost⟩
    · rw [hresult] at hfault ⊢
      have hne (id : SurfaceId) : Host.notMounted id ≠ e := fun h => hfault id (h ▸ rfl)
      rw [hhost]
      constructor
      · simpa [List.filterMap_cons, Host.Call.mounted?] using hmounted
      · simpa [List.filterMap_cons, Host.Call.asked?] using hasked
      · simpa [List.filterMap_cons, Host.Call.refused?, Host.ids] using hlive
      · simpa [List.filterMap_cons, Host.Call.released?] using htornDown
      · simpa [List.filterMap_cons, Host.Call.fault?, hne] using hfaultless
    · have hkept : ∀ id ∈ calls.filterMap Host.Call.refused?, id ≠ old := fun id hid =>
        ne_of_mem_of_not_mem
          ((Host.perm_asked calls).mem_iff.mp (List.mem_append_left _ hid)) hnever
      have hids : (p.host.live.filter fun shown => shown.1 ≠ old).map Prod.fst =
          calls.filterMap Host.Call.refused? := by
        rw [← List.filter_eq_self.mpr fun id hid => decide_eq_true (hkept id hid)]
        have hfilter := congrArg (List.filter fun id => id ≠ old) hlive
        rw [List.filter_append, Host.ids, List.filter_map] at hfilter
        simpa [Function.comp_def] using hfilter
      rw [hresult, hhost]
      constructor
      · simpa [List.filterMap_cons, Host.Call.mounted?] using hmounted
      · simpa [List.filterMap_cons, Host.Call.asked?] using hasked
      · simpa [List.filterMap_cons, Host.Call.refused?, Host.ids] using hids
      · simpa [List.filterMap_cons, Host.Call.released?] using htornDown
      · simpa [List.filterMap_cons, Host.Call.fault?] using hfaultless

/-- What is mounted while nothing is current becomes current, under the next number. -/
theorem Tells.mount (h : Tells calls p) (hcurrent : p.current = none) (document : Text) :
    Tells (calls ++ [.mount document (p.host.mount document).1])
      ⟨(p.host.mount document).2, (p.host.mount document).1.toOption⟩ := by
  obtain ⟨hmounted, hasked, hlive, htornDown, hfaultless⟩ := h
  rw [hcurrent, Option.toList_none, List.append_nil] at hasked hlive
  have hfault := p.host.mount_ne_notMounted document
  rcases p.host.mount_cases document with ⟨e, hresult, hhost⟩ | ⟨hresult, hhost⟩
  · rw [hresult] at hfault ⊢
    have hne (id : SurfaceId) : Host.notMounted id ≠ e := fun h => hfault id (h ▸ rfl)
    rw [hhost]
    constructor
    · simpa [List.filterMap_cons, Host.Call.mounted?] using hmounted
    · simpa [List.filterMap_cons, Host.Call.asked?, Except.toOption] using hasked
    · simpa [List.filterMap_cons, Host.Call.refused?, Host.ids, Except.toOption] using hlive
    · simpa [List.filterMap_cons, Host.Call.released?] using htornDown
    · simpa [List.filterMap_cons, Host.Call.fault?, hne] using hfaultless
  · rw [hresult, hhost]
    constructor
    · simp [Host.Call.mounted?, hmounted, List.range'_1_concat, Nat.add_comm]
    · simp [List.filterMap_cons, Host.Call.asked?, Except.toOption, hasked, List.range'_1_concat,
        Nat.add_comm]
    · simpa [List.filterMap_cons, Host.Call.refused?, Host.ids, Except.toOption] using hlive
    · simpa [List.filterMap_cons, Host.Call.released?] using htornDown
    · simpa [List.filterMap_cons, Host.Call.fault?] using hfaultless

theorem Tells.act (h : Tells calls p) (action : Action) :
    Tells (calls ++ p.calls action) (p.act action) := by
  cases action with
  | discard => exact h.discard
  | render document =>
    rw [Preview.act]
    rcases p.render_calls_cases document with ⟨hrender, hcalls⟩ | ⟨hrender, hcalls⟩
    · rw [hrender, hcalls]
      exact h.discard
    · rw [hrender, hcalls, ← List.append_assoc]
      exact h.discard.mount p.discard_current document

theorem Tells.actAll (h : Tells calls p) (actions : List Action) :
    Tells (calls ++ p.chronicle actions) (p.actAll actions) := by
  induction actions generalizing p calls with
  | nil =>
    rw [chronicle, List.append_nil]
    exact h
  | cons action actions ih =>
    rw [chronicle, ← List.append_assoc]
    exact ih (h.act action)

/-! ### What stands on a surface -/

/-- A surface that is live was so before, or it is the one that the action has just mounted. -/
theorem mem_live_act {action : Action} {shown : SurfaceId × Text}
    (hshown : shown ∈ (p.act action).host.live) :
    shown ∈ p.host.live ∨
      action = .render shown.2 ∧ (p.render shown.2).1 = .ok shown.1 := by
  have hdiscard : p.discard.2.host.live ⊆ p.host.live := by
    cases hcurrent : p.current with
    | none =>
      rw [discard_of_none hcurrent]
      exact List.Subset.refl _
    | some old =>
      rw [discard_of_some hcurrent]
      exact Host.teardown_live_subset p.host old
  cases action with
  | discard => exact .inl (hdiscard hshown)
  | render document =>
    rw [act] at hshown
    rcases p.render_calls_cases document with ⟨hrender, -⟩ | ⟨hrender, -⟩
    · rw [hrender] at hshown
      exact .inl (hdiscard hshown)
    · rw [hrender] at hshown
      rcases p.discard.2.host.mount_cases document with ⟨e, -, hhost⟩ | ⟨hresult, hhost⟩
      · rw [hhost] at hshown
        exact .inl (hdiscard hshown)
      · rw [hhost] at hshown
        rcases List.mem_append.mp hshown with hshown | hshown
        · exact .inl (hdiscard hshown)
        · obtain rfl := List.mem_singleton.mp hshown
          exact .inr ⟨rfl, (congrArg Prod.fst hrender).trans hresult⟩

/-- **Documents stay as they were rendered**: what stands on a live surface is the document of the
render that mounted it. -/
theorem exists_render_of_mem_live (hnew : p.host.live = []) {actions : List Action}
    {id : SurfaceId} {document : Text} (hlive : (id, document) ∈ (p.actAll actions).host.live) :
    ∃ before behind, actions = before ++ .render document :: behind ∧
      ((p.actAll before).render document).1 = .ok id := by
  induction actions using List.reverseRecOn with
  | nil =>
    rw [actAll, List.foldl_nil, hnew] at hlive
    cases hlive
  | append_singleton actions action ih =>
    rw [actAll, List.foldl_append] at hlive
    rcases mem_live_act hlive with hlive | ⟨rfl, hrender⟩
    · obtain ⟨before, behind, rfl, hrender⟩ := ih hlive
      exact ⟨before, behind ++ [action], by simp, hrender⟩
    · exact ⟨actions, [], rfl, hrender⟩

/-! ### The accounts -/

/-- **The accounts of surfaces** that a preview has mounted by some actions, with a chronicle of
what it asked of its host. -/
structure Accounts (refusals : Refusals) (actions : List Action) (p : Preview) : Prop where
  reached : p = (start refusals).actAll actions
  /-- The chronicle holds what the host was asked and what it answered, and nothing else. -/
  answers : Host.Answers { refusals } ((start refusals).chronicle actions) p.host
  disjoint : p.host.ids.Disjoint p.host.tornDown
  /-- What is live and what is torn down are the surfaces from 1 up to the number of mounts that
  were taken. -/
  numbered : (p.host.ids ++ p.host.tornDown).Perm
    (List.range' 1 (((start refusals).chronicle actions).filterMap Host.Call.mounted?).length)
  tornDown : p.host.tornDown.Pairwise (· < ·)
  /-- A surface that is live without being current was kept when it was to be torn down. -/
  strays : p.strays = ((start refusals).chronicle actions).filterMap Host.Call.refused?
  /-- No surface is asked for its end a second time. -/
  asked : (((start refusals).chronicle actions).filterMap Host.Call.asked?).Nodup
  /-- What stands on a live surface is the document of the render that mounted it. -/
  shows : ∀ id document, (id, document) ∈ p.host.live →
    ∃ before behind, actions = before ++ .render document :: behind ∧
      (((start refusals).actAll before).render document).1 = .ok id
  /-- The host is never asked to tear down what is not mounted. -/
  faultless : ∀ id,
    Host.notMounted id ∉ ((start refusals).chronicle actions).filterMap Host.Call.fault?

theorem Tells.numbered (h : Tells calls p) :
    (p.host.ids ++ p.host.tornDown).Perm (List.range' 1 p.host.mounted) := by
  rw [h.live, h.tornDown, ← h.asked, List.append_assoc]
  have hswap : (p.current.toList ++ calls.filterMap Host.Call.released?).Perm
      (calls.filterMap Host.Call.released? ++ p.current.toList) := List.perm_append_comm
  have hasked := (Host.perm_asked calls).append_right p.current.toList
  rw [List.append_assoc] at hasked
  exact (hswap.append_left _).trans hasked

/-- Surfaces are asked for their end in the order in which they were mounted. -/
theorem Tells.pairwise_asked (h : Tells calls p) :
    (calls.filterMap Host.Call.asked?).Pairwise (· < ·) := by
  have hall : (calls.filterMap Host.Call.asked? ++ p.current.toList).Pairwise (· < ·) := by
    rw [h.asked]
    exact List.pairwise_lt_range'
  exact (List.pairwise_append.mp hall).1

theorem Tells.strays_eq (h : Tells calls p) :
    p.strays = calls.filterMap Host.Call.refused? := by
  have hrefused (id : SurfaceId) (hid : id ∈ calls.filterMap Host.Call.refused?) :
      some id ≠ p.current := fun hcurrent =>
    h.current_notMem hcurrent.symm
      ((Host.perm_asked calls).mem_iff.mp (List.mem_append_left _ hid))
  have hcurrent : p.current.toList.filter (fun id => some id ≠ p.current) = [] :=
    List.filter_eq_nil_iff.mpr fun id hid => by simpa using (Option.mem_toList.mp hid).symm
  rw [strays, h.live, List.filter_append, hcurrent, List.append_nil]
  exact List.filter_eq_self.mpr fun id hid => decide_eq_true (hrefused id hid)

/-- **The accounts are kept**, whatever is rendered and discarded and whatever the host refuses. -/
theorem accounts_actAll (refusals : Refusals) (actions : List Action) :
    Accounts refusals actions ((start refusals).actAll actions) := by
  have htells := (Tells.start refusals).actAll actions
  rw [List.nil_append] at htells
  have hnumbered := htells.numbered
  exact {
    reached := rfl
    answers := (start refusals).answers_actAll actions
    disjoint := List.disjoint_of_nodup_append (hnumbered.nodup_iff.mpr List.nodup_range')
    numbered := by rwa [htells.mounted, List.length_range']
    tornDown := htells.tornDown ▸ htells.pairwise_asked.sublist (Host.released_sublist_asked _)
    strays := htells.strays_eq
    asked := htells.pairwise_asked.nodup
    shows := fun id document => exists_render_of_mem_live rfl
    faultless := htells.faultless }

end Preview
end Workbench
