import Campagnol.Client.Transitions

/-!
# Reference counting of the peers

`holders s p` counts the references to `p` that threads and lookups hold, `refs s p` adds
the reference of `peers_list`, which `peer_handling` drops together with its own. The
counter of a peer is `refs` (`RefInv`), so a peer is removed when the last of them is
dropped, and only then.
-/

namespace Campagnol
namespace Client

open SearchTree

/-! ## Counting -/

/-- 1 for the peer that a thread holds a reference of, 0 for the others. -/
def refCell (o : Option Ptr) (q : Ptr) : ℕ := if o = some q then 1 else 0

@[simp]
theorem refCell_none (q : Ptr) : refCell none q = 0 := rfl

@[simp]
theorem refCell_some (p q : Ptr) : refCell (some p) q = if q = p then 1 else 0 := by
  simp [refCell, eq_comm]

/-- The references to `q` held by threads and lookups. -/
def State.holders (s : State) (q : Ptr) : ℕ :=
  refCell s.tun.ref q + refCell s.socket.ref q + refCell s.rdv.ref q +
    (if (s.handler q).life = .running then 1 else 0) + (s.punch q).length + s.writing q

/-- The references to `q`, with the one of `peers_list`. -/
def State.refs (s : State) (q : Ptr) : ℕ :=
  s.holders q + if s.handler q = .done then 0 else 1

/-- A thread or a lookup holds a reference to `p`. -/
inductive Holds (s : State) (p : Ptr) : Prop where
  | tun (h : s.tun.ref = some p)
  | socket (h : s.socket.ref = some p)
  | rdv (h : s.rdv.ref = some p)
  | handler (h : (s.handler p).life = .running)
  | punch (h : 0 < (s.punch p).length)
  | writing (h : 0 < s.writing p)

theorem Holds.pos {s : State} {p : Ptr} (h : Holds s p) : 0 < s.holders p := by
  unfold State.holders
  cases h with
  | tun h | socket h | rdv h =>
    rw [h, refCell_some, if_pos rfl]
    omega
  | handler h =>
    rw [if_pos h]
    omega
  | punch h | writing h => omega

/-- The counters of the created peers are `refs`, the listed peers are those with a
reference, and `hold` counts references to created peers only. -/
structure Counted (r : Registry) (l : List Ptr) (hold refs : Ptr → ℕ) : Prop where
  count : ∀ p, p < r.created → (r.peer p).refCount = refs p
  live : ∀ p, p < r.created → (p ∈ l ↔ 0 < refs p)
  unborn : ∀ p, r.created ≤ p → hold p = 0 ∧ refs p = 1

section Counting
variable {config : Configuration} {r r' : Registry} {l : List Ptr} {p : Ptr}
  {hold hold' refs refs' : Ptr → ℕ}

/-- Who holds a reference refers to a created peer. -/
theorem Counted.lt_created (h : Counted r l hold refs) (hp : 0 < hold p) : p < r.created := by
  by_contra hlt
  have hzero := (h.unborn p (Nat.le_of_not_lt hlt)).1
  omega

/-- The counters stay, and so do the references. -/
theorem Counted.same (h : Counted r l hold refs) (hcreated : r'.created = r.created)
    (hcount : ∀ q, (r'.peer q).refCount = (r.peer q).refCount) (hhold : ∀ q, hold' q = hold q)
    (hrefs : ∀ q, refs' q = refs q) : Counted r' l hold' refs' where
  count := fun q hq => by
    rw [hcount, hrefs]
    exact h.count q (hcreated ▸ hq)
  live := fun q hq => by
    rw [hrefs]
    exact h.live q (hcreated ▸ hq)
  unborn := fun q hq => by
    rw [hhold, hrefs]
    exact h.unborn q (hcreated ▸ hq)

/-- A new reference to a listed peer. -/
theorem Counted.take (h : Counted r l hold refs) (hp : p < r.created) (hmem : p ∈ l)
    (hcreated : r'.created = r.created)
    (hcount : ∀ q, (r'.peer q).refCount = (r.peer q).refCount + if q = p then 1 else 0)
    (hhold : ∀ q, hold' q = hold q + if q = p then 1 else 0)
    (hrefs : ∀ q, refs' q = refs q + if q = p then 1 else 0) : Counted r' l hold' refs' where
  count := fun q hq => by
    rw [hcount, hrefs, h.count q (hcreated ▸ hq)]
    split <;> simp
  live := fun q hq => by
    rw [hrefs]
    by_cases hqp : q = p
    · subst hqp
      simp [hmem]
    · simp only [hqp, if_false, Nat.add_zero]
      exact h.live q (hcreated ▸ hq)
  unborn := fun q hq => by
    have hqp : q ≠ p := by
      rintro rfl
      exact absurd hp (Nat.not_lt.mpr (hcreated ▸ hq))
    rw [hhold, hrefs, if_neg hqp]
    exact h.unborn q (hcreated ▸ hq)

/-- A new peer: the references of its creator and of the list. -/
theorem Counted.create {state : ClientType} {e : SockaddrIn} {v : InAddr} {dtls : Bool}
    (h : Counted r l hold refs) (ha : Registry.Added r r' p state e v dtls)
    (hhold : ∀ q, hold' q = hold q + if q = p then 1 else 0)
    (hrefs : ∀ q, refs' q = refs q + if q = p then 1 else 0) : Counted r' (p :: l) hold' refs' where
  count := fun q hq => by
    by_cases hqp : q = p
    · subst hqp
      -- `refs` is 1 for a peer that does not exist yet, and `ref_count` starts with 2
      rw [ha.fresh.refCount, hrefs, (h.unborn q (Nat.le_of_eq ha.ptr.symm)).2]
      simp
    · rw [ha.frame q hqp, hrefs, h.count q (ha.lt_created hq hqp), if_neg hqp]
      rfl
  live := fun q hq => by
    rw [hrefs, List.mem_cons]
    by_cases hqp : q = p
    · simp [hqp]
    · simp only [hqp, false_or, if_false, Nat.add_zero]
      exact h.live q (ha.lt_created hq hqp)
  unborn := fun q hq => by
    rw [ha.created] at hq
    have hqp : q ≠ p := by
      rw [ha.ptr]
      exact Nat.ne_of_gt hq
    rw [hhold, hrefs, if_neg hqp]
    exact h.unborn q (Nat.le_of_succ_le hq)

/-- `n` references are dropped: the peer is removed if they were the last ones. -/
theorem Counted.drop (hi : r.Inv config l) (h : Counted r l hold refs) (hp : 0 < hold p) {n : ℕ}
    (hn : 0 < n) (hhold : ∀ q, hold' q ≤ hold q)
    (hrefs : ∀ q, refs' q + (if q = p then n else 0) = refs q) :
    ∃ l', (r.peersDecrRef p n).Inv config l' ∧ Counted (r.peersDecrRef p n) l' hold' refs' := by
  have hlt := h.lt_created hp
  have hself := hrefs p
  rw [if_pos rfl] at hself
  have hother : ∀ q, q ≠ p → refs' q = refs q := fun q hq => by
    have hq' := hrefs q
    rwa [if_neg hq, Nat.add_zero] at hq'
  have hmem : p ∈ l := (h.live p hlt).mpr (by omega)
  have hunborn : ∀ q, r.created ≤ q → hold' q = 0 ∧ refs' q = 1 := fun q hq => by
    obtain ⟨hq₁, hq₂⟩ := h.unborn q hq
    have hqp : q ≠ p := by
      rintro rfl
      exact absurd hlt (Nat.not_lt.mpr hq)
    exact ⟨Nat.le_zero.mp (hq₁ ▸ hhold q), (hother q hqp).trans hq₂⟩
  have hcount : ∀ q, q < r.created →
      ((r.modify p fun x => { x with refCount := x.refCount - n }).peer q).refCount = refs' q := by
    intro q hq
    by_cases hqp : q = p
    · subst hqp
      rw [Registry.modify_peer_self, h.count q hq, ← hself]
      simp
    · rw [Registry.modify_peer_of_ne hqp, h.count q hq, hother q hqp]
  have hinv : (r.modify p fun x => { x with refCount := x.refCount - n }).Inv config l :=
    hi.modify_keeps (Registry.keepsKeys_refCount (· - n))
  unfold Registry.peersDecrRef
  dsimp only
  split
  -- the counter is 0: these were the last references, and `peers_remove` runs
  · rename_i hzero
    have hlast : refs' p = 0 := by
      rw [hcount p hlt] at hzero
      exact Int.ofNat_eq_zero.mp hzero
    refine ⟨l.erase p, hinv.peersRemove hmem, hcount, fun q hq => ?_, hunborn⟩
    rw [hi.list.nodup.mem_erase_iff]
    by_cases hqp : q = p
    · subst hqp
      simp [hlast]
    · simp only [ne_eq, hqp, not_false_eq_true, true_and, hother q hqp]
      exact h.live q hq
  -- references are left: the peer stays listed
  · rename_i hzero
    have hleft : refs' p ≠ 0 := by
      intro hzero'
      apply hzero
      rw [hcount p hlt, hzero']
      rfl
    refine ⟨l, hinv, hcount, fun q hq => ?_, hunborn⟩
    by_cases hqp : q = p
    · subst hqp
      simp [hmem, Nat.pos_of_ne_zero hleft]
    · rw [hother q hqp]
      exact h.live q hq

end Counting

/-! ## The threads -/

/-- A peer whose creator has not started its `peer_handling` thread has none, and a thread
is started by one creator only. -/
structure Nascent (s : State) : Prop where
  tun_created : ∀ p, s.tun = .created p → s.handler p = .notStarted ∧ s.rdv ≠ .created p
  rdv_created : ∀ p, s.rdv = .created p → s.handler p = .notStarted
  unborn : ∀ p, s.reg.created ≤ p → s.handler p = .notStarted

/-- The invariant of the client with the peers `l`. -/
structure RefInv (config : Configuration) (s : State) (l : List Ptr) : Prop where
  reg : s.reg.Inv config l
  counted : Counted s.reg l s.holders s.refs
  nascent : Nascent s

theorem refInv_init (config : Configuration) : RefInv config .init [] where
  reg := Registry.inv_init
  counted := ⟨fun p hp => absurd hp (Nat.not_lt_zero p), fun p hp => absurd hp (Nat.not_lt_zero p),
    fun _ _ => ⟨rfl, rfl⟩⟩
  nascent := ⟨nofun, nofun, fun _ _ => rfl⟩

/-- The threads are in the same part of their lives. -/
def SameLife (h h' : Ptr → HandlerPc) : Prop := ∀ q, (h' q).life = (h q).life

section Life
variable {s s' : State} {p : Ptr} {h h' : Ptr → HandlerPc} {pc : HandlerPc}

theorem SameLife.done (hl : SameLife h h') (q : Ptr) : h' q = .done ↔ h q = .done := by
  rw [← HandlerPc.life_eq_done, hl q, HandlerPc.life_eq_done]

theorem SameLife.notStarted (hl : SameLife h h') (q : Ptr) :
    h' q = .notStarted ↔ h q = .notStarted := by
  rw [← HandlerPc.life_eq_notStarted, hl q, HandlerPc.life_eq_notStarted]

theorem sameLife_update (hp : pc.life = (h p).life) : SameLife h (Function.update h p pc) := by
  intro q
  by_cases hq : q = p
  · subst hq
    rw [Function.update_self, hp]
  · rw [Function.update_of_ne hq]

theorem Signalled.sameLife (hs : Signalled p h h') : SameLife h h' := by
  intro q
  rcases hs.at q with hw | ⟨w, w', hw, hw'⟩ | ⟨w, w', hw, hw'⟩
  · rw [hw]
  · rw [hw, hw']
    rfl
  · rw [hw, hw']
    rfl

/-- Who holds references determines `refs`, as long as no `peer_handling` thread ends. -/
theorem refs_of_holders (hl : SameLife s.handler s'.handler) {d : ℕ} {q : Ptr}
    (hq : s'.holders q = s.holders q + d) : s'.refs q = s.refs q + d := by
  simp only [State.refs, hq, hl.done q]
  omega

/-- Nothing starts: the creators that are still to start a thread are among the old ones. -/
theorem Nascent.same (hn : Nascent s) (hl : SameLife s.handler s'.handler)
    (hcreated : s'.reg.created = s.reg.created)
    (htun : ∀ p, s'.tun = .created p → s.tun = .created p)
    (hrdv : ∀ p, s'.rdv = .created p → s.rdv = .created p) : Nascent s' where
  tun_created := fun p hp => by
    obtain ⟨hstart, hne⟩ := hn.tun_created p (htun p hp)
    exact ⟨(hl.notStarted p).mpr hstart, fun hp' => hne (hrdv p hp')⟩
  rdv_created := fun p hp => (hl.notStarted p).mpr (hn.rdv_created p (hrdv p hp))
  unborn := fun p hp => (hl.notStarted p).mpr (hn.unborn p (hcreated ▸ hp))

end Life

@[simp]
theorem created_peersDecrRef (r : Registry) (p : Ptr) (n : ℕ) :
    (r.peersDecrRef p n).created = r.created := by
  unfold Registry.peersDecrRef
  dsimp only
  split <;> rfl

section Steps
variable {config : Configuration} {s s' : State} {a : Act} {l : List Ptr} {p : Ptr}

/-- A step that neither takes nor drops a reference. -/
theorem RefInv.keep (h : RefInv config s l) (hreg : s'.reg.Inv config l)
    (hcreated : s'.reg.created = s.reg.created)
    (hcount : ∀ q, (s'.reg.peer q).refCount = (s.reg.peer q).refCount)
    (hhold : ∀ q, s'.holders q = s.holders q) (hl : SameLife s.handler s'.handler)
    (htun : ∀ p, s'.tun = .created p → s.tun = .created p)
    (hrdv : ∀ p, s'.rdv = .created p → s.rdv = .created p) : RefInv config s' l where
  reg := hreg
  counted := h.counted.same hcreated hcount hhold fun q => refs_of_holders hl (d := 0) (hhold q)
  nascent := h.nascent.same hl hcreated htun hrdv

/-- A step that takes a reference to a listed peer. -/
theorem RefInv.take (h : RefInv config s l) (hp : p ∈ l) (hreg : s'.reg.Inv config l)
    (hcreated : s'.reg.created = s.reg.created)
    (hcount : ∀ q, (s'.reg.peer q).refCount = (s.reg.peer q).refCount + if q = p then 1 else 0)
    (hhold : ∀ q, s'.holders q = s.holders q + if q = p then 1 else 0)
    (hdone : ∀ q, s'.handler q = .done ↔ s.handler q = .done) (hn : Nascent s') :
    RefInv config s' l where
  reg := hreg
  counted := by
    refine h.counted.take (h.reg.lt_created p hp) hp hcreated hcount hhold fun q => ?_
    simp only [State.refs, hhold, hdone]
    omega
  nascent := hn

/-- A thread drops one reference. -/
theorem RefInv.drop (h : RefInv config s l) (hp : Holds s p)
    (hreg : s'.reg = s.reg.peersDecrRef p 1)
    (hhold : ∀ q, s'.holders q + (if q = p then 1 else 0) = s.holders q)
    (hhandler : s'.handler = s.handler)
    (htun : ∀ p, s'.tun = .created p → s.tun = .created p)
    (hrdv : ∀ p, s'.rdv = .created p → s.rdv = .created p) : ∃ l', RefInv config s' l' := by
  have hle : ∀ q, s'.holders q ≤ s.holders q := fun q => hhold q ▸ Nat.le_add_right _ _
  have hrefs : ∀ q, s'.refs q + (if q = p then 1 else 0) = s.refs q := by
    intro q
    simp only [State.refs, ← hhold q, hhandler]
    omega
  obtain ⟨l', hinv, hc⟩ := h.counted.drop h.reg hp.pos Nat.one_pos hle hrefs
  have hl : SameLife s.handler s'.handler := fun q => by rw [hhandler]
  exact ⟨l', hreg ▸ hinv, hreg ▸ hc, h.nascent.same hl (by rw [hreg]; simp) htun hrdv⟩

/-- A peer is created. -/
theorem RefInv.create {state : ClientType} {e : SockaddrIn} {v : InAddr} {dtls : Bool}
    (h : RefInv config s l) (ha : Registry.Added s.reg s'.reg p state e v dtls)
    (hmax : s.reg.peersNClients < config.maxClients)
    (hhold : ∀ q, s'.holders q = s.holders q + if q = p then 1 else 0)
    (hhandler : s'.handler = s.handler) (hn : Nascent s') : RefInv config s' (p :: l) where
  reg := h.reg.added ha hmax
  counted := by
    have hl : SameLife s.handler s'.handler := fun q => by rw [hhandler]
    exact h.counted.create ha hhold fun q => refs_of_holders hl (hhold q)
  nascent := hn

/-- Who holds a reference refers to a listed peer. -/
theorem RefInv.mem_of_holders (h : RefInv config s l) (hp : 0 < s.holders p) : p ∈ l :=
  (h.counted.live p (h.counted.lt_created hp)).mpr (Nat.lt_of_lt_of_le hp (Nat.le_add_right _ _))

theorem RefInv.mem_of_holds (h : RefInv config s l) (hp : Holds s p) : p ∈ l :=
  h.mem_of_holders hp.pos

/-- The allocation of the last node in `peers_add_caller` does not fail. -/
def AllocOk : Act → Prop
  | .rdvStep _ env => env.tsearchAddress = true
  | _ => True

/-- The endpoint that `rdv_handling` is about to write into a peer in `clients_address_root`
is the one the peer has there. -/
def RdvPc.AnswerOk (r : Registry) : RdvPc → Prop
  | .ans p e => p ∈ r.clientsAddressRoot → (r.peer p).clientaddr = e
  | _ => True

/-- The step does not overwrite an endpoint in `clients_address_root`. -/
def AnswerOk (s : State) : Act → Prop
  | .rdvStep _ _ => s.rdv.AnswerOk s.reg
  | _ => True

theorem keepsKeys_of_keeps {f : Peer → Peer} (hf : Keeps f) : KeepsKeys f :=
  ⟨hf.vpnIP, hf.clientaddr⟩

theorem refCount_modify {f : Peer → Peer} (hf : Keeps f) (r : Registry) (q : Ptr) :
    ((r.modify p f).peer q).refCount = (r.peer q).refCount :=
  Registry.modify_field Peer.refCount (hf.refCount _) q

theorem refCount_peersIncrRef (r : Registry) (q : Ptr) :
    ((r.peersIncrRef p).peer q).refCount = (r.peer q).refCount + if q = p then 1 else 0 := by
  by_cases hq : q = p
  · subst hq
    simp [Registry.peersIncrRef]
  · simp [Registry.peersIncrRef, Registry.modify_peer_of_ne hq, hq]

theorem refCount_grab (r : Registry) (q : Ptr) :
    ((r.grab p).peer q).refCount = (r.peer q).refCount + if q = p then 1 else 0 := by
  have hf : Keeps fun x => { x with mutex := true } :=
    ⟨fun _ => rfl, fun _ => rfl, fun _ => rfl, fun _ => rfl⟩
  rw [Registry.grab, refCount_modify hf, refCount_peersIncrRef]

/-- The creator of `p` starts its `peer_handling` thread. -/
theorem RefInv.start (h : RefInv config s l) (hp : Holds s p)
    (hstart : s.handler p = .notStarted) (hreg : s'.reg = s.reg.peersIncrRef p)
    (hcells : ∀ q, refCell s'.tun.ref q + refCell s'.socket.ref q + refCell s'.rdv.ref q =
      refCell s.tun.ref q + refCell s.socket.ref q + refCell s.rdv.ref q)
    (hpunch : s'.punch = s.punch) (hwriting : s'.writing = s.writing)
    (hhandler : s'.handler = Function.update s.handler p .top)
    (htun : ∀ q, s'.tun = .created q → q ≠ p ∧ s.tun = .created q)
    (hrdv : ∀ q, s'.rdv = .created q → q ≠ p ∧ s.rdv = .created q) : RefInv config s' l := by
  have hother : ∀ q, q ≠ p → s'.handler q = s.handler q := fun q hq => by
    rw [hhandler, Function.update_of_ne hq]
  have hhold : ∀ q, s'.holders q = s.holders q + if q = p then 1 else 0 := by
    intro q
    simp only [State.holders, hcells q, hpunch, hwriting]
    by_cases hq : q = p
    · subst hq
      simp only [hhandler, Function.update_self, hstart, HandlerPc.life, reduceCtorEq, if_true,
        if_false]
      omega
    · rw [hother q hq, if_neg hq]
      rfl
  refine h.take (h.mem_of_holds hp) (hreg ▸ h.reg.peersIncrRef) (by rw [hreg]; rfl)
    (fun q => hreg ▸ refCount_peersIncrRef _ q) hhold (fun q => ?_) ⟨?_, ?_, ?_⟩
  · by_cases hq : q = p
    · subst hq
      simp [hhandler, hstart]
    · rw [hother q hq]
  -- the other creators are not concerned
  · intro q hq
    obtain ⟨hne, hq⟩ := htun q hq
    rw [hother q hne]
    exact (h.nascent.tun_created q hq).imp_right fun hq' hq'' => hq' (hrdv q hq'').2
  · intro q hq
    obtain ⟨hne, hq⟩ := hrdv q hq
    rw [hother q hne]
    exact h.nascent.rdv_created q hq
  · intro q hq
    have hle : s.reg.created ≤ q := by rwa [hreg] at hq
    have hne : q ≠ p := by
      rintro rfl
      exact absurd (h.counted.lt_created hp.pos) (Nat.not_lt.mpr hle)
    rw [hother q hne]
    exact h.nascent.unborn q hle

/-- A created peer that is still to be started is an old one. -/
theorem RefInv.created_lt (h : RefInv config s l) {q : Ptr}
    (hq : s.tun = .created q ∨ s.rdv = .created q) : q < s.reg.created := by
  apply h.counted.lt_created
  rcases hq with hq | hq
  · exact (Holds.tun (by rw [hq]; rfl)).pos
  · exact (Holds.rdv (by rw [hq]; rfl)).pos

/-- `comm_tun` has created a peer. -/
theorem RefInv.tunAdded (h : RefInv config s l) {state : ClientType} {e : SockaddrIn} {v : InAddr}
    {dtls : Bool} {reg : Registry} (ha : Registry.Added s.reg reg p state e v dtls) :
    Nascent { s with reg := reg, tun := .created p } where
  tun_created := fun q hq => by
    obtain rfl : p = q := TunPc.created.inj hq
    refine ⟨h.nascent.unborn p (Nat.le_of_eq ha.ptr.symm), fun hrdv => ?_⟩
    exact Nat.lt_irrefl _ (ha.ptr ▸ h.created_lt (.inr hrdv))
  rdv_created := h.nascent.rdv_created
  unborn := fun q hq => by
    have hle : s.reg.created + 1 ≤ q := ha.created ▸ hq
    exact h.nascent.unborn q (Nat.le_of_succ_le hle)

/-- `rdv_handling` has created a peer. -/
theorem RefInv.rdvAdded (h : RefInv config s l) {state : ClientType} {e : SockaddrIn} {v : InAddr}
    {dtls : Bool} {reg : Registry} (ha : Registry.Added s.reg reg p state e v dtls) :
    Nascent { s with reg := reg, rdv := .created p } where
  tun_created := fun q hq => by
    refine ⟨(h.nascent.tun_created q hq).1, fun hrdv => ?_⟩
    obtain rfl : p = q := RdvPc.created.inj hrdv
    exact Nat.lt_irrefl _ (ha.ptr ▸ h.created_lt (.inl hq))
  rdv_created := fun q hq => by
    obtain rfl : p = q := RdvPc.created.inj hq
    exact h.nascent.unborn p (Nat.le_of_eq ha.ptr.symm)
  unborn := fun q hq => by
    have hle : s.reg.created + 1 ≤ q := ha.created ▸ hq
    exact h.nascent.unborn q (Nat.le_of_succ_le hle)

/-- A `peer_handling` thread drops its own reference together with that of the list. -/
theorem RefInv.close (h : RefInv config s l) (hpc : s.handler p = .closing)
    (hs' : s' = { s with
      reg := s.reg.peersDecrRef p 2
      handler := Function.update s.handler p .done }) : ∃ l', RefInv config s' l' := by
  subst hs'
  have hhold : ∀ q, State.holders { s with
      reg := s.reg.peersDecrRef p 2
      handler := Function.update s.handler p .done } q + (if q = p then 1 else 0) =
        s.holders q := by
    intro q
    by_cases hq : q = p
    · subst hq
      simp only [State.holders, Function.update_self, hpc, HandlerPc.life, if_true]
      simp only [reduceCtorEq, if_false]
      omega
    · simp [State.holders, hq]
  -- one reference less is held, and the thread is done: together that is the 2 of the call
  have hrefs : ∀ q, State.refs { s with
      reg := s.reg.peersDecrRef p 2
      handler := Function.update s.handler p .done } q + (if q = p then 2 else 0) = s.refs q := by
    intro q
    simp only [State.refs, ← hhold q]
    by_cases hq : q = p
    · subst hq
      simp [hpc]
    · simp [hq]
  have hp : Holds s p := .handler (by rw [hpc]; rfl)
  obtain ⟨l', hinv, hc⟩ := h.counted.drop h.reg hp.pos Nat.two_pos
    (fun q => hhold q ▸ Nat.le_add_right _ _) hrefs
  have hnot : ∀ q, s.handler q = .notStarted →
      Function.update s.handler p .done q = .notStarted := by
    intro q hq
    have hqp : q ≠ p := by
      rintro rfl
      rw [hpc] at hq
      cases hq
    rw [Function.update_of_ne hqp, hq]
  refine ⟨l', hinv, hc, fun q hq => ?_, fun q hq => hnot q (h.nascent.rdv_created q hq),
    fun q hq => hnot q (h.nascent.unborn q ?_)⟩
  · exact (h.nascent.tun_created q hq).imp_left (hnot q)
  · rwa [created_peersDecrRef] at hq

/-- Every transition keeps the invariant, if no endpoint in `clients_address_root` is
overwritten. -/
theorem RefInv.transition (h : RefInv config s l) (halloc : AllocOk a) (hans : AnswerOk s a)
    (ht : Transition config s a s') : ∃ l', RefInv config s' l' := by
  cases ht with
  | stutter hs' =>
    subst hs'
    exact ⟨l, h⟩
  | ended hs' =>
    subst hs'
    exact ⟨l, h.keep h.reg rfl (fun _ => rfl) (fun _ => rfl) (fun _ => rfl) (fun _ => id)
      fun _ => id⟩
  -- `comm_tun`
  | tunMissed dst hpc hmiss hs' =>
    subst hs'
    refine ⟨l, h.keep h.reg rfl (fun _ => rfl) (fun q => ?_) (fun _ => rfl)
      (fun _ hq => by cases hq) fun _ => id⟩
    simp [State.holders, hpc, TunPc.ref]
  | tunFound p hpc hfound hs' =>
    subst hs'
    refine ⟨l, h.take (h.reg.vpn_mem p hfound) h.reg.grab rfl (refCount_grab _) (fun q => ?_)
      (fun _ => Iff.rfl) (h.nascent.same (fun _ => rfl) rfl (fun _ hq => by cases hq) fun _ => id)⟩
    simp only [State.holders, hpc, TunPc.ref, refCell_none, refCell_some]
    omega
  | tunFull dst hpc hs' =>
    subst hs'
    refine ⟨l, h.keep h.reg rfl (fun _ => rfl) (fun q => ?_) (fun _ => rfl)
      (fun _ hq => by cases hq) fun _ => id⟩
    simp [State.holders, hpc, TunPc.ref]
  | tunAdded dst now env p reg hact hpc hadd hs' =>
    subst hs'
    obtain ⟨ha, hmax⟩ := Registry.added_of_peersAdd hadd
    refine ⟨p :: l, h.create ha hmax (fun q => ?_) rfl (h.tunAdded ha)⟩
    simp only [State.holders, hpc, TunPc.ref, refCell_none, refCell_some]
    omega
  | tunStart p hpc hs' =>
    subst hs'
    obtain ⟨hstart, hne⟩ := h.nascent.tun_created p hpc
    exact ⟨l, h.start (.tun (by rw [hpc]; rfl)) hstart rfl (fun q => by rw [hpc]; rfl) rfl rfl rfl
      (fun _ hq => by cases hq) fun q hq => ⟨fun hqp => hne (hqp ▸ hq), hq⟩⟩
  | tunUse p f hpc hf hs' =>
    subst hs'
    refine ⟨l, h.keep (h.reg.modify_keeps (keepsKeys_of_keeps hf.toKeeps)) rfl
      (refCount_modify hf.toKeeps _) (fun q => ?_) (fun _ => rfl)
      (fun _ hq => by cases hq) fun _ => id⟩
    simp [State.holders, hpc, TunPc.ref]
  | tunRelease p hpc hs' =>
    subst hs'
    refine h.drop (.tun (by rw [hpc]; rfl)) rfl (fun q => ?_) rfl (fun _ hq => by cases hq)
      fun _ => id
    simp only [State.holders, hpc, TunPc.ref, refCell_none, refCell_some]
    omega
  -- `comm_socket`
  | socketFound p pc hpc hpc' hfound hs' =>
    subst hs'
    refine ⟨l, h.take (h.reg.addr_mem p hfound) h.reg.grab rfl (refCount_grab _) (fun q => ?_)
      (fun _ => Iff.rfl) (h.nascent.same (fun _ => rfl) rfl (fun _ => id) fun _ => id)⟩
    have hidle : s.socket.ref = none := by rw [hpc]; rfl
    simp only [State.holders, hidle, hpc', refCell_none, refCell_some]
    omega
  | socketUse p f hh hpc hf hsig hs' =>
    subst hs'
    refine ⟨l, h.keep (h.reg.modify_keeps (keepsKeys_of_keeps hf.toKeeps)) rfl
      (refCount_modify hf.toKeeps _) (fun q => ?_) hsig.sameLife (fun _ => id) fun _ => id⟩
    simp only [State.holders, hpc, hsig.sameLife q]
    rfl
  | socketRelease p hpc hs' =>
    subst hs'
    refine h.drop (.socket (by rw [hpc]; rfl)) rfl (fun q => ?_) rfl (fun _ => id) fun _ => id
    simp only [State.holders, hpc, SocketPc.ref, refCell_none, refCell_some]
    omega
  -- `rdv_handling`
  | rdvMissed e msg hact htype hpc hmiss hs' =>
    subst hs'
    refine ⟨l, h.keep h.reg rfl (fun _ => rfl) (fun q => ?_) (fun _ => rfl) (fun _ => id)
      (fun _ hq => by cases hq)⟩
    simp [State.holders, hpc, RdvPc.ref]
  | rdvFound p pc msg hact hpc hpc' hnot hfwd hfound hs' =>
    subst hs'
    refine ⟨l, h.take (h.reg.vpn_mem p hfound) h.reg.grab rfl (refCount_grab _) (fun q => ?_)
      (fun _ => Iff.rfl) (h.nascent.same (fun _ => rfl) rfl (fun _ => id) fun q hq => ?_)⟩
    · have hidle : s.rdv.ref = none := by rw [hpc]; rfl
      simp only [State.holders, hidle, hpc', refCell_none, refCell_some]
      omega
    · have hq' : pc = .created q := hq
      rw [hq'] at hpc' hnot
      obtain rfl : q = p := Option.some.inj hpc'
      exact absurd rfl hnot
  | rdvUse p f hh pc hpc hpc' hf hsig hs' =>
    subst hs'
    have href : pc.ref = some p := by rcases hpc' with rfl | rfl <;> rfl
    refine ⟨l, h.keep (h.reg.modify_keeps (keepsKeys_of_keeps hf.toKeeps)) rfl
      (refCount_modify hf.toKeeps _) (fun q => ?_) hsig.sameLife (fun _ => id) fun q hq => ?_⟩
    · simp only [State.holders, hpc, href, hsig.sameLife q]
    · have hq' : pc = .created q := hq
      rcases hpc' with rfl | rfl <;> cases hq'
  | rdvAnswer p e now env hact hpc hs' =>
    subst hs' hact
    have hsame : p ∈ s.reg.clientsAddressRoot → (s.reg.peer p).clientaddr = e := by
      simpa only [AnswerOk, hpc, RdvPc.AnswerOk] using hans
    have hinv : (s.reg.modify p (answered e)).Inv config l :=
      h.reg.modify (fun _ => rfl) fun hp => (hsame hp).symm
    have hcount : ∀ q, ((s.reg.modify p (answered e)).peer q).refCount = (s.reg.peer q).refCount :=
      Registry.modify_field Peer.refCount rfl
    refine ⟨l, h.keep hinv rfl hcount (fun q => ?_) (fun _ => rfl) (fun _ => id)
      (fun _ hq => by cases hq)⟩
    simp [State.holders, hpc, RdvPc.ref]
  | rdvFull e v hpc hs' =>
    subst hs'
    refine ⟨l, h.keep h.reg rfl (fun _ => rfl) (fun q => ?_) (fun _ => rfl) (fun _ => id)
      (fun _ hq => by cases hq)⟩
    simp [State.holders, hpc, RdvPc.ref]
  | rdvAdded e v now env p reg hact hpc hadd hs' =>
    subst hs'
    obtain ⟨ha, hmax⟩ := Registry.added_of_peersAdd hadd
    refine ⟨p :: l, h.create ha hmax (fun q => ?_) rfl (h.rdvAdded ha)⟩
    simp only [State.holders, hpc, RdvPc.ref, refCell_none, refCell_some]
    omega
  | rdvLeak e v now env reg hact hpc henv hleak hs' =>
    subst hact
    rw [AllocOk, henv] at halloc
    cases halloc
  | rdvStart p hpc hs' =>
    subst hs'
    have hstart := h.nascent.rdv_created p hpc
    have hne : ∀ q, s.tun = .created q → q ≠ p := by
      rintro q hq rfl
      exact (h.nascent.tun_created q hq).2 hpc
    exact ⟨l, h.start (.rdv (by rw [hpc]; rfl)) hstart rfl (fun q => by rw [hpc]; rfl) rfl rfl rfl
      (fun q hq => ⟨hne q hq, hq⟩) (fun _ hq => by cases hq)⟩
  | rdvRelease p hpc hs' =>
    subst hs'
    refine h.drop (.rdv (by rw [hpc]; rfl)) rfl (fun q => ?_) rfl (fun _ => id)
      (fun _ hq => by cases hq)
    simp only [State.holders, hpc, RdvPc.ref, refCell_none, refCell_some]
    omega
  -- `peer_handling`
  | handlerSection p f pc msgs hf hrun hrun' hnew hstage hmsgs hs' =>
    subst hs'
    have hlife : SameLife s.handler (Function.update s.handler p pc) :=
      sameLife_update (hrun'.trans hrun.symm)
    refine ⟨l, h.keep (h.reg.modify_keeps (keepsKeys_of_keeps hf)) rfl (refCount_modify hf _)
      (fun q => ?_) hlife (fun _ => id) fun _ => id⟩
    simp only [State.holders, hlife q]
  | handlerRegister p f alloc reg hpc hreg hf hstate hs' =>
    subst hs'
    have hrun : (s.handler p).life = .running := by rw [hpc]; rfl
    have hlife : SameLife s.handler (Function.update s.handler p .top) :=
      sameLife_update hrun.symm
    have hinv := h.reg.peersRegisterEndpoint (h.mem_of_holds (.handler hrun)) hreg
    obtain ⟨root, -, rfl⟩ := Option.map_eq_some_iff.mp hreg
    refine ⟨l, h.keep (hinv.modify_keeps (keepsKeys_of_keeps hf)) rfl (refCount_modify hf _)
      (fun q => ?_) hlife (fun _ => id) fun _ => id⟩
    simp only [State.holders, hlife q]
  | handlerPunch p f hpc hf hs' =>
    subst hs'
    have hrun : (s.handler p).life = .running := by rw [hpc]; rfl
    have hlife : SameLife s.handler (Function.update s.handler p (.waitPunch .asleep)) :=
      sameLife_update hrun.symm
    refine ⟨l, h.take (h.mem_of_holds (.handler hrun))
      (h.reg.peersIncrRef.modify_keeps (keepsKeys_of_keeps hf.toKeeps)) rfl (fun q => ?_)
      (fun q => ?_) hlife.done (h.nascent.same hlife rfl (fun _ => id) fun _ => id)⟩
    · rw [refCount_modify hf.toKeeps, refCount_peersIncrRef]
    · simp only [State.holders, hlife q]
      by_cases hq : q = p
      · subst hq
        simp only [Function.update_self, List.length_append, List.length_singleton, if_true]
        omega
      · simp [hq]
  | handlerWriting p hpc hs' =>
    subst hs'
    have hrun : (s.handler p).life = .running := by rw [hpc]; rfl
    have hlife : SameLife s.handler (Function.update s.handler p (.reading 0)) :=
      sameLife_update hrun.symm
    refine ⟨l, h.take (h.mem_of_holds (.handler hrun)) h.reg.peersIncrRef rfl
      (refCount_peersIncrRef _) (fun q => ?_) hlife.done
      (h.nascent.same hlife rfl (fun _ => id) fun _ => id)⟩
    simp only [State.holders, hlife q]
    by_cases hq : q = p
    · subst hq
      simp only [Function.update_self, if_true]
      omega
    · simp [hq]
  | handlerClose p hpc hs' =>
    subst hs'
    exact h.close hpc rfl
  -- `punch` and `SSL_writing`
  | punchSection p k n msgs hk hmsgs hs' =>
    subst hs'
    refine ⟨l, h.keep h.reg rfl (fun _ => rfl) (fun q => ?_) (fun _ => rfl) (fun _ => id)
      fun _ => id⟩
    by_cases hq : q = p
    · subst hq
      simp [State.holders]
    · simp [State.holders, hq]
  | punchEnd p k hk hs' =>
    subst hs'
    have hpos : 0 < (s.punch p).length := Nat.zero_lt_of_lt hk
    refine h.drop (.punch hpos) rfl (fun q => ?_) rfl (fun _ => id) fun _ => id
    by_cases hq : q = p
    · subst hq
      simp only [State.holders, Function.update_self, List.length_eraseIdx_of_lt hk, if_true]
      omega
    · simp [State.holders, hq]
  | writingEnd p n hn hs' =>
    subst hs'
    have hpos : 0 < s.writing p := hn ▸ Nat.succ_pos n
    refine h.drop (.writing hpos) rfl (fun q => ?_) rfl (fun _ => id) fun _ => id
    by_cases hq : q = p
    · subst hq
      simp only [State.holders, Function.update_self, hn, if_true]
      omega
    · simp [State.holders, hq]

end Steps

end Client
end Campagnol
