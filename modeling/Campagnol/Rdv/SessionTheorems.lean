import Campagnol.Rdv.Session

/-!
# The session table stays consistent

`SessionTable.Inv` ties the list and the tree of `session.c` together, relative to the
clients `cl` a session may refer to. Every operation of `session.c` has one lemma that
says which sessions it keeps and that the table stays consistent.
-/

namespace Campagnol
namespace Rdv
namespace SessionTable

open SearchTree

/-- The table holds exactly the sessions `sl`, in this order. They are between clients
of `cl`, and no two of them have the same two clients, in whatever direction. -/
structure Inv (w : SessionTable) (cl sl : List Ptr) : Prop where
  sessions_list : w.sessions.IsList sl
  heap_iff : ∀ x, w.session.inUse x = true ↔ x ∈ sl
  heap_size : w.session.size = sl.length
  ordered : Ordered compareSessions (peersKey w.session) w.sessionsRoot
  root_mem : ∀ x, x ∈ w.sessionsRoot ↔ x ∈ sl
  peers_mem : ∀ x ∈ sl, (w.peersOf x).1 ∈ cl ∧ (w.peersOf x).2 ∈ cl
  one_way : ∀ x ∈ sl, ∀ y ∈ sl, w.peersOf y = (w.peersOf x).swap → x = y

theorem inv_init : Inv .init [] [] where
  sessions_list := Links.isList_empty
  heap_iff := by simp [init, Heap.inUse]
  heap_size := rfl
  ordered := trivial
  root_mem := by simp [init]
  peers_mem := by simp
  one_way := by simp

variable {w : SessionTable} {cl sl : List Ptr}

/-! ## Lookups -/

theorem Inv.getSession_eq_some (h : Inv w cl sl) {p q x : Ptr} :
    w.getSession p q = some x ↔ x ∈ sl ∧ w.peersOf x = (p, q) := by
  rw [getSession, tfind_eq_some_iff h.ordered, h.root_mem, peersOf]

theorem Inv.getSession_eq_none (h : Inv w cl sl) {p q : Ptr} :
    w.getSession p q = none ↔ ∀ x ∈ sl, w.peersOf x ≠ (p, q) := by
  simp only [getSession, tfind_eq_none_iff h.ordered, h.root_mem, peersOf]

theorem Inv.peersOf_inj (h : Inv w cl sl) {x y : Ptr} (hx : x ∈ sl) (hy : y ∈ sl)
    (he : w.peersOf x = w.peersOf y) : x = y :=
  h.ordered.key_inj ((h.root_mem x).mpr hx) ((h.root_mem y).mpr hy) he

theorem Inv.mem_erase (h : Inv w cl sl) {x y : Ptr} : y ∈ sl.erase x ↔ y ≠ x ∧ y ∈ sl :=
  h.sessions_list.nodup.mem_erase_iff

theorem sessionAt_congr {w w' : SessionTable} {x : Ptr}
    (h : w'.session.get x = w.session.get x) : w'.sessionAt x = w.sessionAt x := by
  rw [sessionAt, sessionAt, sessionOf, sessionOf, h]

theorem peersOf_congr {w w' : SessionTable} {x : Ptr} (h : w'.sessionAt x = w.sessionAt x) :
    w'.peersOf x = w.peersOf x := by
  have h' : sessionOf w'.session x = sessionOf w.session x := h
  rw [peersOf, peersOf, peersKey, peersKey, h']

/-- Sessions may refer to any larger set of clients. -/
theorem Inv.mono (h : Inv w cl sl) {cl' : List Ptr} (hcl : ∀ p ∈ cl, p ∈ cl') : Inv w cl' sl :=
  { h with peers_mem := fun x hx => (h.peers_mem x hx).imp (hcl _) (hcl _) }

/-! ## `session_update_time` -/

theorem sessionUpdateTime_peersOf (now : Int) (x y : Ptr) :
    (w.sessionUpdateTime now x).peersOf y = w.peersOf y := by
  by_cases hy : y = x
  · subst hy
    simp only [peersOf, peersKey, sessionOf, sessionUpdateTime, Heap.modify_get_self]
    cases w.session.get y <;> rfl
  · exact peersOf_congr (sessionAt_congr (Heap.modify_get_of_ne _ _ hy))

theorem Inv.sessionUpdateTime (h : Inv w cl sl) (now : Int) (x : Ptr) :
    Inv (w.sessionUpdateTime now x) cl sl where
  sessions_list := h.sessions_list
  heap_iff := fun y => by
    simp only [SessionTable.sessionUpdateTime, Heap.modify_inUse]
    exact h.heap_iff y
  heap_size := h.heap_size
  ordered := h.ordered.congr fun y _ => sessionUpdateTime_peersOf now x y
  root_mem := h.root_mem
  peers_mem := fun y hy => by
    rw [sessionUpdateTime_peersOf]
    exact h.peers_mem y hy
  one_way := fun y hy z hz => by
    rw [sessionUpdateTime_peersOf, sessionUpdateTime_peersOf]
    exact h.one_way y hy z hz

/-! ## `remove_session` -/

theorem removeSession_sessionAt_of_ne {x y : Ptr} (hy : y ≠ x) :
    (w.removeSession x).sessionAt y = w.sessionAt y :=
  sessionAt_congr (Heap.free_get_of_ne _ hy)

theorem removeSession_peersOf_of_ne {x y : Ptr} (hy : y ≠ x) :
    (w.removeSession x).peersOf y = w.peersOf y :=
  peersOf_congr (removeSession_sessionAt_of_ne hy)

theorem Inv.removeSession (h : Inv w cl sl) {x : Ptr} (hx : x ∈ sl) :
    Inv (w.removeSession x) cl (sl.erase x) := by
  have hroot : ∀ y, y ∈ (w.removeSession x).sessionsRoot ↔ y ∈ sl.erase x := by
    intro y
    have hm : y ∈ (w.removeSession x).sessionsRoot ↔
        y ∈ w.sessionsRoot ∧ w.peersOf y ≠ w.peersOf x := mem_tdelete h.ordered y
    rw [hm, h.root_mem, h.mem_erase]
    constructor
    · rintro ⟨hy, hne⟩
      exact ⟨fun e => hne (by rw [e]), hy⟩
    · rintro ⟨hne, hy⟩
      exact ⟨hy, fun e => hne (h.peersOf_inj hy hx e)⟩
  have hkey : ∀ y ∈ sl.erase x, (w.removeSession x).peersOf y = w.peersOf y := fun y hy =>
    removeSession_peersOf_of_ne (h.mem_erase.mp hy).1
  refine ⟨h.sessions_list.unlink hx, ?_, ?_, ?_, hroot, ?_, ?_⟩
  · intro y
    rw [h.mem_erase, ← h.heap_iff]
    exact Heap.inUse_free
  · simp only [SessionTable.removeSession, Heap.free_size, h.heap_size]
    rw [List.length_erase_of_mem hx]
  · exact (ordered_tdelete _ h.ordered).congr fun y hy => hkey y ((hroot y).mp hy)
  · intro y hy
    rw [hkey y hy]
    exact h.peers_mem y (h.mem_erase.mp hy).2
  · intro y hy z hz
    rw [hkey y hy, hkey z hz]
    exact h.one_way y (h.mem_erase.mp hy).2 z (h.mem_erase.mp hz).2

/-! ## `remove_sessions_with_client` -/

theorem involves_congr {w w' : SessionTable} {p x : Ptr} (h : w'.sessionAt x = w.sessionAt x) :
    w'.involves p x = w.involves p x := by
  rw [involves, involves, h]

/-- The body of the walk over the sessions. -/
def removeIfInvolves (p : Ptr) (w : SessionTable) (x : Ptr) : SessionTable :=
  if w.involves p x then w.removeSession x else w

/-- The part `r` of the list still to be visited is filtered, the part `pre` already
visited stays. -/
theorem Inv.foldl_removeIfInvolves (p : Ptr) :
    ∀ (r pre : List Ptr) {w : SessionTable}, Inv w cl (pre ++ r) →
      Inv (r.foldl (removeIfInvolves p) w) cl (pre ++ r.filter fun x => !w.involves p x) ∧
        ∀ x ∈ pre ++ r.filter (fun x => !w.involves p x),
          (r.foldl (removeIfInvolves p) w).sessionAt x = w.sessionAt x := by
  intro r
  induction r with
  | nil =>
    intro pre w h
    exact ⟨by simpa using h, fun x _ => rfl⟩
  | cons x r ih =>
    intro pre w h
    have hnd := h.sessions_list.nodup
    simp only [List.foldl_cons, removeIfInvolves]
    by_cases hx : w.involves p x = true
    · obtain ⟨hxpre, hxr, _⟩ := Links.nodup_split hnd
      have h' := h.removeSession (x := x) (by simp)
      rw [List.erase_append_right _ hxpre, List.erase_cons_head] at h'
      have hsame : ∀ y, y ≠ x → (w.removeSession x).sessionAt y = w.sessionAt y := fun y hy =>
        removeSession_sessionAt_of_ne hy
      have hfilter : r.filter (fun y => !(w.removeSession x).involves p y)
          = r.filter fun y => !w.involves p y := by
        refine List.filter_congr fun y hy => ?_
        rw [involves_congr (hsame y fun e => hxr (e ▸ hy))]
      obtain ⟨hinv, hdata⟩ := ih pre h'
      rw [hfilter] at hinv hdata
      rw [if_pos hx, List.filter_cons_of_neg (by simp [hx])]
      refine ⟨hinv, fun y hy => ?_⟩
      have hyx : y ≠ x := by
        rintro rfl
        rcases List.mem_append.mp hy with hy | hy
        · exact hxpre hy
        · exact hxr (List.mem_of_mem_filter hy)
      rw [hdata y hy, hsame y hyx]
    · obtain ⟨hinv, hdata⟩ := ih (pre ++ [x]) (by simpa using h)
      rw [if_neg hx, List.filter_cons_of_pos (by simpa using hx)]
      exact ⟨by simpa using hinv, fun y hy => hdata y (by simpa using hy)⟩

/-- The walk over the list is that fold: it never follows a link of a removed session. -/
theorem Inv.removeSessionsWithClient_eq (h : Inv w cl sl) (p : Ptr) :
    w.removeSessionsWithClient p = sl.foldl (removeIfInvolves p) w := by
  rw [removeSessionsWithClient, h.sessions_list.head_eq]
  refine Links.walk_eq_foldl _ _ (fun w r => ∃ pre, Inv w cl (pre ++ r)) ?_ sl _ w ⟨[], h⟩
    (Nat.le_of_eq h.heap_size.symm)
  rintro w x r ⟨pre, hw⟩
  refine ⟨(hw.sessions_list.links pre x r rfl).2, ?_⟩
  by_cases hx : w.involves p x = true
  · have h' := hw.removeSession (x := x) (by simp)
    rw [List.erase_append_right _ (Links.nodup_split hw.sessions_list.nodup).1,
      List.erase_cons_head] at h'
    exact ⟨pre, by rw [if_pos hx]; exact h'⟩
  · exact ⟨pre ++ [x], by rw [if_neg hx]; simpa using hw⟩

theorem involves_eq_true {p x : Ptr} :
    w.involves p x = true ↔ (w.peersOf x).1 = p ∨ (w.peersOf x).2 = p := by
  rw [involves, decide_eq_true_iff]
  exact Iff.rfl

/-- The sessions without `p` are kept, with their data, and in their order. Then none
refers to `p` any more. -/
theorem Inv.removeSessionsWithClient (h : Inv w cl sl) (p : Ptr) :
    Inv (w.removeSessionsWithClient p) (cl.erase p) (sl.filter fun x => !w.involves p x) ∧
      ∀ x ∈ sl.filter (fun x => !w.involves p x),
        (w.removeSessionsWithClient p).sessionAt x = w.sessionAt x := by
  rw [h.removeSessionsWithClient_eq p]
  obtain ⟨hinv, hdata⟩ := Inv.foldl_removeIfInvolves p sl [] (w := w) (by simpa using h)
  rw [List.nil_append] at hinv hdata
  refine ⟨{ hinv with peers_mem := fun x hx => ?_ }, hdata⟩
  have hnot : ¬((w.peersOf x).1 = p ∨ (w.peersOf x).2 = p) := by
    rw [← involves_eq_true]
    simpa using (List.mem_filter.mp hx).2
  rw [not_or] at hnot
  obtain ⟨h1, h2⟩ := h.peers_mem x (List.mem_of_mem_filter hx)
  rw [peersOf_congr (hdata x hx)]
  exact ⟨(List.mem_erase_of_ne hnot.1).mpr h1, (List.mem_erase_of_ne hnot.2).mpr h2⟩

/-! ## Removing the session of two clients -/

/-- Afterwards there is no session from `p` to `q`; every other one is kept. -/
theorem Inv.removeSessionBetween (h : Inv w cl sl) (p q : Ptr) :
    ∃ sl', Inv (w.removeSessionBetween p q) cl sl' ∧
      (∀ x, x ∈ sl' ↔ x ∈ sl ∧ w.peersOf x ≠ (p, q)) ∧
      ∀ x ∈ sl', (w.removeSessionBetween p q).sessionAt x = w.sessionAt x := by
  unfold SessionTable.removeSessionBetween
  split
  · rename_i x hx
    obtain ⟨hmem, hpeers⟩ := h.getSession_eq_some.mp hx
    refine ⟨sl.erase x, h.removeSession hmem, fun y => ?_, fun y hy => ?_⟩
    · rw [h.mem_erase]
      constructor
      · rintro ⟨hne, hy⟩
        exact ⟨hy, fun e => hne (h.peersOf_inj hy hmem (e.trans hpeers.symm))⟩
      · rintro ⟨hy, hne⟩
        exact ⟨fun e => hne (by rw [e, hpeers]), hy⟩
    · exact removeSession_sessionAt_of_ne (h.mem_erase.mp hy).1
  · rename_i hnone
    refine ⟨sl, h, fun y => ?_, fun y _ => rfl⟩
    exact ⟨fun hy => ⟨hy, h.getSession_eq_none.mp hnone y hy⟩, fun hy => hy.1⟩

/-! ## `add_session` -/

section Alloc
variable {x : Ptr} {p q : Ptr} {t : Int}

/-- Writing the new session changes no other one, for its address is not in use. -/
theorem sessionOf_alloc (hfresh : x ∉ sl) :
    ∀ y ∈ sl, sessionOf (w.session.alloc x ⟨p, q, t⟩) y = w.sessionAt y := by
  intro y hy
  rw [sessionAt, sessionOf, sessionOf, Heap.alloc_get_of_ne]
  exact fun e => hfresh (e ▸ hy)

theorem sessionOf_alloc_self (h : Heap Session) :
    sessionOf (h.alloc x ⟨p, q, t⟩) x = ⟨p, q, t⟩ := by
  simp [sessionOf]

theorem peersKey_alloc (hfresh : x ∉ sl) :
    ∀ y ∈ sl, peersKey (w.session.alloc x ⟨p, q, t⟩) y = peersKey w.session y := fun y hy =>
  @peersOf_congr w { w with session := w.session.alloc x ⟨p, q, t⟩ } y (sessionOf_alloc hfresh y hy)

theorem peersKey_alloc_self (h : Heap Session) :
    peersKey (h.alloc x ⟨p, q, t⟩) x = (p, q) := by
  rw [peersKey, sessionOf_alloc_self]

/-- The table with a new session in front of the list and in the tree. -/
theorem Inv.push (h : Inv w cl sl) {tsearchOk : Bool} {root : SearchTree.Tree Ptr}
    (hfresh : x ∉ sl) (hp : p ∈ cl) (hq : q ∈ cl) (hpq : w.getSession p q = none)
    (hqp : w.getSession q p = none)
    (hs : tsearch compareSessions (peersKey (w.session.alloc x ⟨p, q, t⟩)) tsearchOk x
      w.sessionsRoot = some root) :
    Inv { w with
      session := w.session.alloc x ⟨p, q, t⟩
      sessionsRoot := root
      sessions := w.sessions.pushFront x } cl (x :: sl) := by
  have hkey := peersKey_alloc (w := w) (p := p) (q := q) (t := t) hfresh
  have hself := peersKey_alloc_self (x := x) (p := p) (q := q) (t := t) w.session
  have hroot : ∀ y ∈ w.sessionsRoot,
      peersKey (w.session.alloc x ⟨p, q, t⟩) y = peersKey w.session y := fun y hy =>
    hkey y ((h.root_mem y).mp hy)
  have hfind : tfind compareSessions (peersKey (w.session.alloc x ⟨p, q, t⟩))
      (peersKey (w.session.alloc x ⟨p, q, t⟩) x) w.sessionsRoot = none := by
    rw [tfind_congr _ hroot, hself]
    exact hpq
  refine ⟨h.sessions_list.pushFront hfresh, fun y => ?_, ?_, ?_, fun y => ?_, ?_, ?_⟩
  · rw [List.mem_cons, ← h.heap_iff]
    exact Heap.inUse_alloc
  · simp [h.heap_size]
  · exact ordered_tsearch (h.ordered.congr hroot) hs
  · rw [mem_tsearch_of_none hfind hs y, h.root_mem, List.mem_cons]
  · intro y hy
    simp only [peersOf]
    rcases List.mem_cons.mp hy with rfl | hy
    · rw [hself]
      exact ⟨hp, hq⟩
    · rw [hkey y hy]
      exact h.peers_mem y hy
  · -- a session the other way round would have been found
    intro y hy z hz
    simp only [peersOf]
    rcases List.mem_cons.mp hy with hyx | hy' <;> rcases List.mem_cons.mp hz with hzx | hz'
    · exact fun _ => hyx.trans hzx.symm
    · rw [hyx, hself, hkey z hz']
      exact fun e => absurd e (h.getSession_eq_none.mp hqp z hz')
    · rw [hzx, hself, hkey y hy']
      intro e
      refine absurd ?_ (h.getSession_eq_none.mp hqp y hy')
      rw [peersOf, ← Prod.swap_swap (peersKey w.session y), ← e]
      rfl
    · rw [hkey y hy', hkey z hz']
      exact h.one_way y hy' z hz'

end Alloc

/-- `add_session` for two clients without a session: either it fails and changes
nothing, or it adds the session. -/
theorem Inv.addSession_cases (h : Inv w cl sl) (env : SessionAlloc) (t : Int) {p q : Ptr}
    (hp : p ∈ cl) (hq : q ∈ cl) (hpq : w.getSession p q = none) (hqp : w.getSession q p = none) :
    w.addSession env p q t = (none, w) ∨
      ∃ x w', w.addSession env p q t = (some x, w') ∧ x ∉ sl ∧ Inv w' cl (x :: sl) ∧
        w'.sessionAt x = ⟨p, q, t⟩ ∧ ∀ y ∈ sl, w'.sessionAt y = w.sessionAt y := by
  unfold addSession
  cases hm : env.malloc.malloc w.session.inUse with
  | none => exact .inl rfl
  | some x =>
    have hfresh : x ∉ sl := Heap.notMem_of_malloc h.heap_iff hm
    simp only
    cases hs : tsearch compareSessions (peersKey (w.session.alloc x ⟨p, q, t⟩)) env.tsearch x
        w.sessionsRoot with
    | none => exact .inl (by simp only [Heap.free_alloc w.session _ (Heap.get_of_malloc hm)])
    | some root =>
      exact .inr ⟨x, _, rfl, hfresh, h.push hfresh hp hq hpq hqp hs,
        sessionOf_alloc_self w.session, sessionOf_alloc hfresh⟩

/-- Opening a session from `p` to `q`, as ASK_CONNECTION does: a session from `q` to `p` is
removed, then `add_session` fails or adds the new one. -/
theorem Inv.openSession_cases (h : Inv w cl sl) (env : SessionAlloc) (t : Int) {p q : Ptr}
    (hp : p ∈ cl) (hq : q ∈ cl) (hnone : w.getSession p q = none) :
    ∃ sl', (∀ x, x ∈ sl' ↔ x ∈ sl ∧ w.peersOf x ≠ (q, p)) ∧
      ((∃ w', (w.removeSessionBetween q p).addSession env p q t = (none, w') ∧ Inv w' cl sl') ∨
        ∃ x w', (w.removeSessionBetween q p).addSession env p q t = (some x, w') ∧
          Inv w' cl (x :: sl') ∧ w'.peersOf x = (p, q) ∧
          ∀ y ∈ sl', w'.peersOf y = w.peersOf y) := by
  obtain ⟨sl', hw', hmem, hdata⟩ := h.removeSessionBetween q p
  have hpeers : ∀ x ∈ sl', (w.removeSessionBetween q p).peersOf x = w.peersOf x := fun x hx =>
    peersOf_congr (hdata x hx)
  have hpq : (w.removeSessionBetween q p).getSession p q = none := by
    rw [hw'.getSession_eq_none]
    intro x hx
    rw [hpeers x hx]
    exact h.getSession_eq_none.mp hnone x ((hmem x).mp hx).1
  have hqp : (w.removeSessionBetween q p).getSession q p = none := by
    rw [hw'.getSession_eq_none]
    intro x hx
    rw [hpeers x hx]
    exact ((hmem x).mp hx).2
  refine ⟨sl', hmem, ?_⟩
  rcases hw'.addSession_cases env t hp hq hpq hqp with hfail | ⟨x, w', hadd, _, hinv, hself, hother⟩
  · exact .inl ⟨_, hfail, hw'⟩
  · refine .inr ⟨x, w', hadd, hinv, ?_, fun y hy => ?_⟩
    · have hself' : sessionOf w'.session x = ⟨p, q, t⟩ := hself
      rw [peersOf, peersKey, hself']
    · rw [peersOf_congr (hother y hy), hpeers y hy]

/-- `add_session` succeeds when its two allocations do. -/
theorem addSession_isSome (env : SessionAlloc) (p q : Ptr) (t : Int)
    (hm : (env.malloc.malloc w.session.inUse).isSome) (ht : env.tsearch = true) :
    (w.addSession env p q t).1.isSome := by
  obtain ⟨x, hx⟩ := Option.isSome_iff_exists.mp hm
  simp only [addSession, hx]
  have hsome : (tsearch compareSessions (peersKey (w.session.alloc x ⟨p, q, t⟩)) true x
      w.sessionsRoot).isSome := tsearch_isSome x
  obtain ⟨root, hroot⟩ := Option.isSome_iff_exists.mp hsome
  rw [ht, hroot]
  rfl

end SessionTable
end Rdv
end Campagnol
