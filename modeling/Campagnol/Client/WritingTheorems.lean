import Campagnol.Client.Writing
import Campagnol.Fifo.Refinement

/-!
# The threads of the outgoing packets

`Ok` says where the threads of a peer stand in their calls of the BIO, and `Marked` where the packet
of length 0 is, with which `end_SSL_writing` ends `SSL_writing`. Nobody sleeps in `fifo_write` for
ever (`no_dead_consumer`), as long as `SSL_writing` ends with this packet and not with an error of
`SSL_write`.
-/

namespace Campagnol
namespace Client
namespace Writing

open Fifo (Bytes Bio FifoItem Env Obs Thread)

/-! ## Who is in which call -/

/-- A call of the BIO. -/
inductive Call where
  | none
  | write (buf : Bytes)
  | read (outl : ℕ)

/-- The places in the BIO of a thread that is in the call, or about to make it. -/
def Call.Fits : Call → Fifo.Pc → Prop
  | _, .idle => True
  | .write buf, .writeSleep buf' | .write buf, .writeReady buf' => buf' = buf
  | .read outl, .readSleep outl' _ => outl' = outl
  | .read outl, .readReady outl' timedOut => outl' = outl ∧ timedOut = false
  | _, _ => False

theorem Call.fits_idle (c : Call) : c.Fits .idle := by
  cases c <;> trivial

theorem Call.Fits.wake {c : Call} {pc : Fifo.Pc} (h : c.Fits pc) : c.Fits (pc.wake false) := by
  cases c <;> cases pc <;> first | exact h | exact ⟨h, rfl⟩

/-- The call of `comm_tun`. -/
def TunPc.call {tunMtu : ℕ} : TunPc tunMtu → Call
  | .first packet | .forward packet | .broadcast packet => .write packet.bytes
  | _ => .none

/-- The number of packets that `comm_tun` still puts into the queue when the peer is closed. -/
def TunPc.pending {tunMtu : ℕ} : TunPc tunMtu → ℕ
  | .first _ | .forward _ | .broadcast _ => 1
  | _ => 0

/-- The call of `peer_handling`. -/
def HandlerPc.call : HandlerPc → Call
  | .ending => .write []
  | _ => .none

/-- The call of `SSL_writing`. -/
def WritingPc.call (tunMtu : ℕ) : WritingPc → Call
  | .top => .read (messageMaxLength tunMtu)
  | _ => .none

/-- The calls of the threads. -/
def State.call {tunMtu : ℕ} (s : State tunMtu) (t : Thread) : Call :=
  if t = commTun then s.tun.call
  else if t = peerHandling then s.handler.call
  else if t = sslWriting then s.writing.call tunMtu
  else .none

/-- All threads of a BIO are where their calls say. -/
def Fits (c : Thread → Call) (out : Bio) : Prop := ∀ t, (c t).Fits (out.pc t)

section Fits
variable {c c' : Thread → Call} {out out' : Bio} {t : Thread} {buf : Bytes}

theorem Fits.returns (h : Fits c out) (hr : Fifo.Returns t out out')
    (hc : ∀ u, u ≠ t → c' u = c u) : Fits c' out' := by
  intro u
  by_cases hu : u = t
  · subst hu
    rw [hr.self]
    exact (c' u).fits_idle
  · rw [hc u hu]
    rcases hr.other u hu with hsame | hwake
    · rw [hsame]
      exact h u
    · rw [hwake]
      exact (h u).wake

/-- A thread that is in no call begins one. -/
theorem Fits.begins (h : Fits c out) (ht : c t = .none) (hc : ∀ u, u ≠ t → c' u = c u) :
    Fits c' out := by
  intro u
  by_cases hu : u = t
  · subst hu
    have hidle := h u
    rw [ht] at hidle
    cases hpc : out.pc u with
    | idle => exact (c' u).fits_idle
    | _ => rw [hpc] at hidle; exact hidle.elim
  · rw [hc u hu]
    exact h u

theorem Fits.sleeps (h : Fits c out) {pc : Fifo.Pc} (hpc : out'.pc = Function.update out.pc t pc)
    (ht : (c t).Fits pc) : Fits c out' := by
  intro u
  rw [hpc]
  by_cases hu : u = t
  · subst hu
    rw [Function.update_self]
    exact ht
  · rw [Function.update_of_ne hu]
    exact h u

end Fits

/-! ## Steps of the calls -/

section Bio
variable {rd t : Thread} {out out' : Bio} {buf : Bytes} {env : Env} {m : ℕ} {returned : Bool}

/-- What a step of `BIO_write` can do: drop the packet, wait, or store it. -/
inductive Written (t : Thread) (buf : Bytes) (out out' : Bio) : Bool → Prop where
  | dropped (hout : out' = out) (hfull : out.queue.Full) (hdrop : out.d.droptail ≠ 0)
      (hpc : out.pc t = .idle) : Written t buf out out' true
  | waits (hqueue : out'.queue = out.queue)
      (hpc : out'.pc = Function.update out.pc t (.writeSleep buf)) : Written t buf out out' false
  | stored (hqueue : out'.queue = { out.queue with items := out.queue.items ++ [buf] })
      (hreturns : Fifo.Returns t out out') : Written t buf out out' true

theorem written_of_stores {o : Obs} (h : Fifo.Stores t buf out out' o) :
    o = .accepted t buf ∧ Written t buf out out' true :=
  ⟨h.obs, .stored h.queue h.returns⟩

theorem bioWrite_cases (hinv : out.Inv rd) (hsized : out.Sized m) (hlen : buf.length ≤ m)
    (hfits : (Call.write buf).Fits (out.pc t))
    (h : State.bioWrite out t buf env = some (out', returned)) :
    out'.Inv rd ∧ out'.Sized m ∧ Written t buf out out' returned := by
  unfold State.bioWrite at h
  obtain ⟨⟨b, o⟩, hstep, hr⟩ := Option.map_eq_some_iff.mp h
  dsimp only at hstep hr
  split at hstep
  · rename_i hidle
    have hinv' := Fifo.step_inv (a := .write t (some buf) env) hinv trivial hstep
    have hsized' := hsized.step hstep
    rcases Fifo.write_cases hinv (hsized.holds hlen) hstep with
      ⟨rfl, rfl, hfull, hdrop⟩ | ⟨rfl, -, hsleeps⟩ | hstores
    · cases hr
      exact ⟨hinv, hsized, .dropped rfl hfull hdrop hidle⟩
    · cases hr
      exact ⟨hinv', hsized', .waits hsleeps.queue hsleeps.pc⟩
    · obtain ⟨rfl, hwritten⟩ := written_of_stores hstores
      cases hr
      exact ⟨hinv', hsized', hwritten⟩
  · have hinv' := Fifo.step_inv (a := .resume t env) hinv trivial hstep
    have hsized' := hsized.step hstep
    -- the thread has been woken up in this call
    have hready : out.pc t = .writeReady buf := by
      cases hpc : out.pc t with
      | writeReady buf' =>
        rw [hpc] at hfits
        rw [show buf' = buf from hfits]
      | idle => rename_i hne; exact absurd hpc hne
      | writeSleep buf' => simp [Fifo.step, hpc] at hstep
      | _ => rw [hpc] at hfits; exact hfits.elim
    rcases Fifo.resumeWrite_cases hinv (hsized.holds hlen) hready hstep with
      ⟨rfl, hsleeps⟩ | hstores
    · cases hr
      exact ⟨hinv', hsized', .waits hsleeps.queue hsleeps.pc⟩
    · obtain ⟨rfl, hwritten⟩ := written_of_stores hstores
      cases hr
      exact ⟨hinv', hsized', hwritten⟩

/-- What a step of `BIO_read` can do: wait, or take the first packet. -/
inductive Read (t : Thread) (outl : ℕ) (out out' : Bio) : Option Bytes → Prop where
  | waits (deadline : Option Fifo.Timespec) (hqueue : out'.queue = out.queue)
      (hpc : out'.pc = Function.update out.pc t (.readSleep outl deadline)) :
      Read t outl out out' none
  | taken (p : Bytes) (hitems : out.queue.items = p :: out'.queue.items)
      (hdrop : out'.queue.droptail = out.queue.droptail) (hreturns : Fifo.Returns t out out') :
      Read t outl out out' (some (p.take outl))

theorem bioRead_cases {outl : ℕ} {packet : Option Bytes} (hinv : out.Inv t) (hsized : out.Sized m)
    (hfits : (Call.read outl).Fits (out.pc t))
    (h : State.bioRead out t outl env = some (out', packet)) :
    out'.Inv t ∧ out'.Sized m ∧ Read t outl out out' packet := by
  unfold State.bioRead at h
  obtain ⟨⟨b, o⟩, hstep, hr⟩ := Option.map_eq_some_iff.mp h
  dsimp only at hstep hr
  split at hstep
  · have hinv' := Fifo.step_inv (a := .read t (some outl) env) hinv rfl hstep
    have hsized' := hsized.step hstep
    rcases Fifo.read_cases hinv hstep with ⟨deadline, rfl, -, hqueue, hpc⟩ | ⟨p, htakes⟩
    · cases hr
      exact ⟨hinv', hsized', .waits deadline hqueue hpc⟩
    · obtain ⟨rfl, hitems, hqueue, hreturns⟩ := htakes
      have hdrop := congrArg Fifo.Queue.droptail hqueue
      cases hr
      exact ⟨hinv', hsized', .taken p hitems hdrop hreturns⟩
  · have hinv' := Fifo.step_inv (a := .resume t env) hinv trivial hstep
    have hsized' := hsized.step hstep
    have hready : out.pc t = .readReady outl false := by
      cases hpc : out.pc t with
      | readReady outl' timedOut =>
        rw [hpc] at hfits
        obtain ⟨rfl, rfl⟩ := hfits
        rfl
      | idle => rename_i hne; exact absurd hpc hne
      | readSleep outl' deadline => simp [Fifo.step, hpc] at hstep
      | _ => rw [hpc] at hfits; exact hfits.elim
    obtain ⟨p, rfl, hitems, hqueue, hreturns⟩ := Fifo.resumeRead_cases hinv hready hstep
    have hdrop := congrArg Fifo.Queue.droptail hqueue
    cases hr
    exact ⟨hinv', hsized', .taken p hitems hdrop hreturns⟩

end Bio

/-! ## The invariant -/

/-- `SSL_writing` has been created. -/
def WritingPc.started : WritingPc → Bool
  | .notStarted => false
  | _ => true

/-- `SSL_writing` has not run yet. -/
def WritingPc.early : WritingPc → Bool
  | .notStarted | .created => true
  | _ => false

/-- The state of the peer and `SSL_writing`, while `peer_handling` is somewhere. -/
def HandlerPc.Agrees : HandlerPc → ClientType → Bool → Prop
  | .notStarted, _, started | .waitAnswer, _, started | .waitPunch, _, started
  | .handshake, _, started | .startWriting, _, started => started = false
  | .top, state, started => started = true → state = .closed
  | .reading, _, started => started = true
  | .ending, state, started => state = .closed ∧ started = true
  | .done, state, _ => state = .closed

/-- `comm_tun` has not started `peer_handling` yet. -/
def TunPc.creates {tunMtu : ℕ} : TunPc tunMtu → Bool
  | .first _ | .starting => true
  | _ => false

/-- The threads and the queue agree. The queue drops packets until `SSL_writing` runs. -/
structure Ok {tunMtu : ℕ} (s : State tunMtu) : Prop where
  inv : s.out.Inv sslWriting
  sized : s.out.Sized (messageMaxLength tunMtu)
  fits : Fits s.call s.out
  droptail : s.out.queue.droptail = if s.writing.early then 1 else 0
  agrees : s.handler.Agrees s.state s.writing.started
  born : s.tun.creates = true → s.handler = .notStarted

section Ok
variable {tunMtu : ℕ} {s s' : State tunMtu} {a : Act tunMtu} {env : Env}

/-- A step that leaves the queue alone. -/
theorem Ok.quiet (h : Ok s) (hout : s'.out = s.out) (hfits : Fits s'.call s.out)
    (hwriting : s'.writing.early = s.writing.early)
    (hagrees : s'.handler.Agrees s'.state s'.writing.started)
    (hborn : s'.tun.creates = true → s'.handler = .notStarted) : Ok s' where
  inv := hout ▸ h.inv
  sized := hout ▸ h.sized
  fits := by
    rw [hout]
    exact hfits
  droptail := by
    rw [hout, hwriting]
    exact h.droptail
  agrees := hagrees
  born := hborn

theorem call_commTun (s : State tunMtu) : s.call commTun = s.tun.call := rfl

theorem call_peerHandling (s : State tunMtu) : s.call peerHandling = s.handler.call := rfl

theorem call_sslWriting (s : State tunMtu) : s.call sslWriting = s.writing.call tunMtu := rfl

/-- A step of a `BIO_write` of the thread `t`. -/
theorem Ok.bioWrite (h : Ok s) {t : Thread} {buf : Bytes} {out : Bio} {returned : Bool}
    (hcall : s.call t = .write buf) (hlen : buf.length ≤ messageMaxLength tunMtu)
    (hw : State.bioWrite s.out t buf env = some (out, returned)) (hout : s'.out = out)
    (hother : ∀ u, u ≠ t → s'.call u = s.call u)
    (hwaits : returned = false → s'.call t = s.call t) (hwriting : s'.writing = s.writing)
    (hagrees : s'.handler.Agrees s'.state s'.writing.started)
    (hborn : s'.tun.creates = true → s'.handler = .notStarted) :
    Ok s' ∧ Written t buf s.out out returned := by
  have hfits := h.fits t
  rw [hcall] at hfits
  obtain ⟨hinv, hsized, hwritten⟩ := bioWrite_cases h.inv h.sized hlen hfits hw
  have hdrop : out.queue.droptail = s.out.queue.droptail := by
    cases hwritten with
    | dropped heq => rw [heq]
    | waits hqueue => rw [hqueue]
    | stored hqueue => rw [hqueue]
  have hsame : ∀ u, u ≠ t ∨ returned = false → s'.call u = s.call u := by
    intro u hu
    by_cases hut : u = t
    · subst hut
      exact hwaits (hu.resolve_left fun hne => hne rfl)
    · exact hother u hut
  refine ⟨⟨hout ▸ hinv, hout ▸ hsized, ?_, ?_, hagrees, hborn⟩, hwritten⟩
  · rw [hout]
    cases hwritten with
    | dropped heq _ _ hpc =>
      rw [heq]
      intro u
      by_cases hut : u = t
      · subst hut
        rw [hpc]
        exact Call.fits_idle _
      · rw [hother u hut]
        exact h.fits u
    | waits hqueue hpc =>
      have hcalls : s'.call = s.call := funext fun u => hsame u (.inr rfl)
      rw [hcalls]
      refine h.fits.sleeps hpc ?_
      rw [hcall]
      rfl
    | stored hqueue hr => exact h.fits.returns hr hother
  · rw [hout, hdrop, hwriting]
    exact h.droptail

/-- Only the calls of `comm_tun` change. -/
theorem call_of_tun (tun : TunPc tunMtu) (out : Bio) {u : Thread} (hu : u ≠ commTun) :
    State.call { s with tun := tun, out := out } u = s.call u := by
  simp only [State.call, if_neg hu]

/-- What `comm_tun` does with a packet for the peer: it drops the packet, or begins to write it
while the peer is not closed. -/
inductive TunBegins (s : State tunMtu) : State tunMtu → Prop where
  | ignored : TunBegins s s
  | begins (tun : TunPc tunMtu) (hidle : s.tun = .idle) (hopen : s.state ≠ .closed)
      (hcreates : tun.creates = false) : TunBegins s { s with tun := tun }

theorem tunBegins_of_tunPacket {packet : TunPacket tunMtu} (hs : s.tunPacket packet = some s') :
    TunBegins s s' := by
  unfold State.tunPacket at hs
  split at hs
  · rename_i hidle
    cases hs
    split
    · rename_i hopen
      exact .begins _ hidle hopen rfl
    · exact .ignored
  · cases hs

theorem tunBegins_of_tunBroadcast {packet : TunPacket tunMtu}
    (hs : s.tunBroadcast packet = some s') : TunBegins s s' := by
  unfold State.tunBroadcast at hs
  split at hs
  · rename_i hidle
    cases hs
    split
    · rename_i hstate
      exact .begins _ hidle (by rw [hstate]; simp) rfl
    · exact .ignored
  · cases hs

theorem Ok.tunBegins (h : Ok s) (hs : TunBegins s s') : Ok s' := by
  cases hs with
  | ignored => exact h
  | begins tun hidle _ hcreates =>
    refine h.quiet rfl (h.fits.begins (t := commTun) ?_ fun u hu => call_of_tun _ _ hu) rfl
      h.agrees fun hc => ?_
    · rw [call_commTun, hidle]
      rfl
    · rw [hcreates] at hc
      cases hc

/-- `comm_tun` is done with its packet, or still in its call. -/
theorem Ok.tunWrite (h : Ok s) {packet : TunPacket tunMtu} {out : Bio} {returned : Bool}
    {tun : TunPc tunMtu} (hcall : s.tun.call = .write packet.bytes)
    (hw : State.bioWrite s.out commTun packet.bytes env = some (out, returned))
    (htun : returned = false → tun = s.tun)
    (hborn : tun.creates = true → s.tun.creates = true) :
    Ok { s with out := out, tun := tun } ∧ Written commTun packet.bytes s.out out returned := by
  refine h.bioWrite hcall packet.length_le hw rfl (fun u hu => call_of_tun _ _ hu) (fun hr => ?_)
    rfl h.agrees fun hc => h.born (hborn hc)
  rw [call_commTun, htun hr]
  rfl

/-- What a step of `comm_tun` does: it starts `peer_handling`, or is in a call of `BIO_write`. -/
inductive TunMoves (s : State tunMtu) (env : Env) : State tunMtu → Prop where
  | starts (hpc : s.tun = .starting) : TunMoves s env { s with handler := .top, tun := .idle }
  | writes (packet : TunPacket tunMtu) (out : Bio) (returned : Bool) (tun : TunPc tunMtu)
      (hcall : s.tun.call = .write packet.bytes) (hpending : s.tun.pending = 1)
      (hw : State.bioWrite s.out commTun packet.bytes env = some (out, returned))
      (hwaits : returned = false → tun = s.tun) (hreturns : returned = true → tun.pending = 0)
      (hcreates : tun.creates = true → s.tun.creates = true) :
      TunMoves s env { s with out := out, tun := tun }

/-- `comm_tun` is in a call of `BIO_write`, and goes on at `next` after it. -/
theorem tunMoves_of_bioWrite (packet : TunPacket tunMtu) (next : TunPc tunMtu)
    (hcall : s.tun.call = .write packet.bytes) (hpending : s.tun.pending = 1)
    (hnext : next.pending = 0) (hcreates : next.creates = true → s.tun.creates = true)
    (hs : (State.bioWrite s.out commTun packet.bytes env).map (fun (out, returned) =>
      { s with out := out, tun := if returned then next else s.tun }) = some s') :
    TunMoves s env s' := by
  obtain ⟨⟨out, returned⟩, hw, rfl⟩ := Option.map_eq_some_iff.mp hs
  refine .writes packet out returned _ hcall hpending hw ?_ ?_ ?_
  · rintro rfl
    rfl
  · rintro rfl
    exact hnext
  · cases returned with
    | true => exact hcreates
    | false => exact id

theorem tunMoves_of_tunStep (hs : s.tunStep env = some s') : TunMoves s env s' := by
  unfold State.tunStep at hs
  split at hs
  · cases hs
  · rename_i packet hpc
    refine tunMoves_of_bioWrite packet .starting ?_ ?_ rfl ?_ ?_ <;> rw [hpc]
    · rfl
    · rfl
    · exact fun _ => rfl
    · exact hs
  · rename_i hpc
    cases hs
    exact .starts hpc
  · rename_i packet hpc
    refine tunMoves_of_bioWrite packet .idle ?_ ?_ rfl nofun ?_ <;> rw [hpc]
    · rfl
    · rfl
    · exact hs
  · rename_i packet hpc
    refine tunMoves_of_bioWrite packet .idle ?_ ?_ rfl nofun ?_ <;> rw [hpc]
    · rfl
    · rfl
    · exact hs

theorem Ok.tunStep (h : Ok s) (hs : s.tunStep env = some s') : Ok s' := by
  cases tunMoves_of_tunStep hs with
  | starts hpc =>
    have hstart := h.born (by rw [hpc]; rfl)
    have hagrees := h.agrees
    rw [hstart] at hagrees
    refine h.quiet rfl ?_ rfl (fun hstarted => by rw [hagrees] at hstarted; cases hstarted)
      fun hc => by cases hc
    have hcall : State.call ({ s with handler := .top, tun := .idle } : State tunMtu) = s.call := by
      funext u
      simp only [State.call, hpc, hstart]
      rfl
    rw [hcall]
    exact h.fits
  | writes packet out returned tun hcall _ hw hwaits _ hcreates =>
    exact (h.tunWrite hcall hw hwaits hcreates).1

/-- Only the calls of `peer_handling` change. -/
theorem call_of_handler (htun : s'.tun = s.tun)
    (hwriting : s'.writing.call tunMtu = s.writing.call tunMtu) {u : Thread}
    (hu : u ≠ peerHandling) : s'.call u = s.call u := by
  simp only [State.call, htun, hwriting, if_neg hu]

/-- `peer_handling` moves on, and is not in a call before that. -/
theorem Ok.handlerMove (h : Ok s) (hpc : s.handler.call = .none) (hout : s'.out = s.out)
    (htun : s'.tun = s.tun) (hwriting : s'.writing = s.writing)
    (hagrees : s'.handler.Agrees s'.state s'.writing.started)
    (hborn : s.handler ≠ .notStarted) : Ok s' := by
  refine h.quiet hout (h.fits.begins (t := peerHandling) hpc fun u hu => ?_) (by rw [hwriting])
    hagrees fun hc => absurd (h.born (htun ▸ hc)) hborn
  exact call_of_handler htun (by rw [hwriting]) hu

theorem Ok.handlerTop (h : Ok s) (hpc : s.handler = .top) (endCampagnol : Bool) :
    Ok (s.handlerTop endCampagnol) := by
  have hcall : s.handler.call = .none := by rw [hpc]; rfl
  have hborn : s.handler ≠ .notStarted := by rw [hpc]; simp
  have hagrees := h.agrees
  rw [hpc] at hagrees
  -- an open session is not closed, so `SSL_writing` has not been created
  have hnot : s.state ≠ .closed → s.writing.started = false := fun hne => by
    by_contra hstarted
    exact hne (hagrees (Bool.not_eq_false _ ▸ hstarted))
  have hclosed : Ok { s with state := .closed } := by
    refine h.handlerMove hcall rfl rfl rfl ?_ hborn
    rw [hpc]
    exact fun _ => rfl
  unfold State.handlerTop
  split <;> rename_i hstate
  · split
    · exact hclosed
    · exact h.handlerMove hcall rfl rfl rfl (hnot (by rw [hstate]; simp)) hborn
  · split
    · exact hclosed
    · exact h.handlerMove hcall rfl rfl rfl (hnot (by rw [hstate]; simp)) hborn
  · split
    · exact hclosed
    · exact h.handlerMove hcall rfl rfl rfl (hnot (by rw [hstate]; simp)) hborn
  · exact h.handlerMove hcall rfl rfl rfl (hnot (by rw [hstate]; simp)) hborn
  · exact h.handlerMove hcall rfl rfl rfl hstate hborn

/-- Before the session `SSL_writing` has not been created. -/
theorem Ok.changeState (h : Ok s) (hpc : s.handler.call = .none) (hborn : s.handler ≠ .notStarted)
    (hstarted : s.writing.started = false) (state : ClientType) : Ok (s.changeState state) := by
  refine h.handlerMove hpc rfl rfl rfl (fun hs => ?_) hborn
  rw [show (s.changeState state).writing.started = s.writing.started from rfl, hstarted] at hs
  cases hs

/-- `start_SSL_writing`. -/
theorem Ok.startWriting (h : Ok s) (hpc : s.handler = .startWriting) :
    Ok { s with writing := .created, handler := .reading } := by
  have hagrees := h.agrees
  rw [hpc] at hagrees
  have hnot : s.writing = .notStarted := by
    cases hw : s.writing with
    | notStarted => rfl
    | _ => rw [hw] at hagrees; cases hagrees
  refine h.quiet rfl (h.fits.begins (t := peerHandling) (by rw [call_peerHandling, hpc]; rfl)
    fun u hu => ?_) (by rw [hnot]; rfl) rfl fun hc => ?_
  · simp only [State.call, if_neg hu, hnot]
    rfl
  · have hborn := h.born hc
    rw [hpc] at hborn
    cases hborn

/-- A step of `end_SSL_writing`. -/
theorem Ok.endWriting (h : Ok s) {out : Bio} {returned : Bool} (hpc : s.handler = .ending)
    (hw : State.bioWrite s.out peerHandling [] env = some (out, returned)) :
    Ok { s with out := out, handler := if returned then .top else .ending } ∧
      Written peerHandling [] s.out out returned := by
  have hagrees := h.agrees
  rw [hpc] at hagrees
  refine h.bioWrite (t := peerHandling) (by rw [call_peerHandling, hpc]; rfl) (Nat.zero_le _) hw rfl
    (fun u hu => ?_) (fun hr => ?_) rfl ?_ fun hc => ?_
  · simp only [State.call, if_neg hu]
  · rw [call_peerHandling, call_peerHandling, hpc, hr]
    rfl
  · cases returned
    · exact hagrees
    · exact fun _ => hagrees.1
  · have hborn := h.born hc
    rw [hpc] at hborn
    cases hborn

theorem Ok.handlerRead (h : Ok s) (hpc : s.handler = .reading) (read : SslRead) :
    Ok (s.handlerRead read) := by
  have hagrees := h.agrees
  rw [hpc] at hagrees
  have hclose : Ok { s with state := .closed, handler := .ending } :=
    h.handlerMove (by rw [hpc]; rfl) rfl rfl rfl ⟨rfl, hagrees⟩ (by rw [hpc]; simp)
  unfold State.handlerRead
  split
  · exact h
  · exact h
  · exact h
  · exact hclose
  · exact hclose

theorem Ok.handlerStep (h : Ok s) {ok endCampagnol : Bool} {read : SslRead}
    (hs : s.handlerStep env ok endCampagnol read = some s') : Ok s' := by
  have hagrees := h.agrees
  unfold State.handlerStep at hs
  split at hs
  · cases hs
  · cases hs
  · rename_i hpc
    cases hs
    exact h.startWriting hpc
  · rename_i hpc
    obtain ⟨⟨out, returned⟩, hw, rfl⟩ := Option.map_eq_some_iff.mp hs
    exact (h.endWriting hpc hw).1
  · split at hs
    · cases hs
    · split at hs <;> cases hs <;> rename_i hpc <;> rw [hpc] at hagrees
      · exact h.handlerTop hpc _
      · exact h.changeState (by rw [hpc]; rfl) (by rw [hpc]; simp) hagrees _
      · exact h.changeState (by rw [hpc]; rfl) (by rw [hpc]; simp) hagrees _
      · exact h.changeState (by rw [hpc]; rfl) (by rw [hpc]; simp) hagrees _
      · exact h.handlerRead hpc _

/-! ### `SSL_writing` -/

/-- Only the calls of `SSL_writing` change. -/
theorem call_of_writing (w : WritingPc) (out : Bio) {u : Thread} (hu : u ≠ sslWriting) :
    State.call { s with writing := w, out := out } u = s.call u := by
  simp only [State.call, if_neg hu]

/-- The thread stops dropping packets. -/
theorem Ok.clearDroptail (h : Ok s) (hpc : s.writing = .created) :
    Ok { s with out := (s.out.fifoCtrl (.fifoSetDroptail 0)).1, writing := .top } := by
  have hagrees := h.agrees
  rw [hpc] at hagrees
  have hinv : (s.out.fifoCtrl (.fifoSetDroptail 0)).1.Inv sslWriting :=
    Fifo.fifoCtrl_inv h.inv (by simp)
  refine ⟨hinv, h.sized, ?_, rfl, hagrees, h.born⟩
  exact h.fits.begins (t := sslWriting) (by rw [call_sslWriting, hpc]; rfl)
    fun u hu => call_of_writing _ _ hu

/-- A step of `BIO_read`. -/
theorem Ok.bioRead (h : Ok s) {out : Bio} {packet : Option Bytes} {w : WritingPc}
    (hpc : s.writing = .top)
    (hr : State.bioRead s.out sslWriting (messageMaxLength tunMtu) env = some (out, packet))
    (hw : packet = none → w = .top) (hstarted : w.started = true) (hearly : w.early = false) :
    Ok { s with out := out, writing := w } ∧
      Read sslWriting (messageMaxLength tunMtu) s.out out packet := by
  have hagrees := h.agrees
  rw [hpc] at hagrees
  have hfits := h.fits sslWriting
  rw [call_sslWriting, hpc] at hfits
  obtain ⟨hinv, hsized, hread⟩ := bioRead_cases h.inv h.sized hfits hr
  refine ⟨⟨hinv, hsized, ?_, ?_, ?_, h.born⟩, hread⟩
  · cases hread with
    | waits deadline hqueue hp =>
      have hcalls : State.call { s with out := out, writing := w } = s.call := by
        rw [hw rfl, ← hpc]
        rfl
      rw [hcalls]
      refine h.fits.sleeps hp ?_
      rw [call_sslWriting, hpc]
      rfl
    | taken p hitems hdrop hreturns =>
      exact h.fits.returns hreturns fun u hu => call_of_writing _ _ hu
  · have hdrop : out.queue.droptail = s.out.queue.droptail := by
      cases hread with
      | waits deadline hqueue => rw [hqueue]
      | taken p hitems hdrop => exact hdrop
    rw [hdrop, h.droptail, hpc, hearly]
    rfl
  · rw [hstarted]
    exact hagrees

/-- The thread is done with its packet. -/
theorem Ok.sslWrite (h : Ok s) {packet : Bytes} {w : WritingPc} (hpc : s.writing = .got packet)
    (hstarted : w.started = true) (hearly : w.early = false) : Ok { s with writing := w } := by
  have hagrees := h.agrees
  rw [hpc] at hagrees
  refine h.quiet rfl (h.fits.begins (t := sslWriting) (by rw [call_sslWriting, hpc]; rfl)
    fun u hu => call_of_writing _ _ hu) (by rw [hearly, hpc]; rfl) ?_ h.born
  rw [hstarted]
  exact hagrees

theorem Ok.writingStep (h : Ok s) {result : SslWrite} (hs : s.writingStep env result = some s') :
    Ok s' := by
  unfold State.writingStep at hs
  split at hs
  · cases hs
  · cases hs
  · rename_i hpc
    cases hs
    exact h.clearDroptail hpc
  · rename_i hpc
    obtain ⟨⟨out, packet⟩, hr, rfl⟩ := Option.map_eq_some_iff.mp hs
    refine (h.bioRead hpc hr (fun hnone => by rw [hnone]) ?_ ?_).1
    · cases packet with
      | none => rfl
      | some packet => dsimp only; split <;> rfl
    · cases packet with
      | none => rfl
      | some packet => dsimp only; split <;> rfl
  · rename_i packet hpc
    cases hs
    refine h.sslWrite hpc ?_ ?_ <;> split <;> rfl

theorem Ok.step (h : Ok s) (hs : Writing.step s a = some s') : Ok s' := by
  cases a with
  | tunPacket packet => exact h.tunBegins (tunBegins_of_tunPacket hs)
  | tunBroadcast packet => exact h.tunBegins (tunBegins_of_tunBroadcast hs)
  | tunStep env => exact h.tunStep hs
  | handlerStep env ok endCampagnol read => exact h.handlerStep hs
  | writingStep env result => exact h.writingStep hs

end Ok

/-! ## Runs -/

/-- The states of a new peer with the queue `out`. -/
inductive Initial {tunMtu : ℕ} (out : Bio) : State tunMtu → Prop where
  | requested (packet : TunPacket tunMtu) : Initial out (.requested out packet)
  | called : Initial out (.called out)

section Runs
variable {tunMtu fifoSize : ℕ} {hsize : 0 < fifoSize ∧ fifoSize < 0x80000000} {mallocs : ℕ → Bool}
  {junk : ℕ → FifoItem} {out : Bio} {s₀ s s' : State tunMtu} {a : Act tunMtu}

theorem outFifo_idle (h₀ : outFifo tunMtu fifoSize hsize mallocs junk = some out) :
    out.Inv sslWriting ∧ out.Sized (messageMaxLength tunMtu) ∧ (∀ t, out.pc t = .idle) ∧
      out.queue = ⟨fifoSize, [], 1⟩ := by
  obtain ⟨b, hb, rfl⟩ := Option.map_eq_some_iff.mp h₀
  obtain ⟨hinv, -⟩ := Fifo.fifoAllocate_inv sslWriting hb
  have hinv' : (b.fifoCtrl (.fifoSetDroptail 1)).1.Inv sslWriting :=
    Fifo.fifoCtrl_inv hinv (by simp)
  unfold Fifo.fifoAllocate at hb
  split at hb
  · cases hb
    exact ⟨hinv', fun _ => Nat.le_refl _, fun _ => rfl, rfl⟩
  · cases hb

theorem ok_initial (h₀ : outFifo tunMtu fifoSize hsize mallocs junk = some out)
    (hi : Initial out s₀) : Ok s₀ := by
  obtain ⟨hinv, hsized, hidle, hqueue⟩ := outFifo_idle h₀
  have hfits : ∀ c, Fits c out := fun c t => by
    rw [hidle t]
    exact (c t).fits_idle
  have hdrop : out.queue.droptail = 1 := by rw [hqueue]
  cases hi with
  | requested packet => exact ⟨hinv, hsized, hfits _, hdrop, rfl, fun _ => rfl⟩
  | called =>
    exact ⟨hinv, hsized, hfits _, hdrop, (fun hs => by cases hs), fun hc => by cases hc⟩

/-- `SSL_writing` does not end with an error of `SSL_write`. -/
def NoSslFailure : Act tunMtu → Prop
  | .writingStep _ result => result ≠ .zeroReturn ∧ result ≠ .sslError false
  | _ => True

instance : DecidablePred (@NoSslFailure tunMtu)
  | .writingStep _ _ => inferInstanceAs (Decidable (_ ∧ _))
  | .tunPacket _ | .tunBroadcast _ | .tunStep _ | .handlerStep _ _ _ _ =>
    inferInstanceAs (Decidable True)

/-- `comm_tun` or `peer_handling` sleeps on a full queue that does not drop packets, and
`SSL_writing` has returned. -/
structure Stuck (s : State tunMtu) : Prop where
  returned : s.writing = .done
  full : s.out.d.nelem = s.out.d.size
  blocking : s.out.d.droptail = 0
  asleep : (s.out.pc commTun).sleepsWrite = true ∨ (s.out.pc peerHandling).sleepsWrite = true

/-- `end_SSL_writing` has returned. -/
def State.Ended (s : State tunMtu) : Prop :=
  s.state = .closed ∧ (s.handler = .top ∨ s.handler = .done)

theorem not_ended (hpc : s.handler = .ending) : ¬ s.Ended := by
  rintro ⟨-, hp⟩
  rw [hpc] at hp
  simp at hp

/-- The packet of length 0 is not in the queue, or at most one packet comes after it, or
`SSL_writing` has taken it and returned. -/
inductive Marked (s : State tunMtu) : Prop where
  | unmarked (hw : s.writing ≠ .done) (hitems : ∀ p ∈ s.out.queue.items, p ≠ [])
  | marked (hend : s.Ended) (hw : s.writing ≠ .done) (pre post : List Bytes)
      (hitems : s.out.queue.items = pre ++ [] :: post) (hpre : ∀ p ∈ pre, p ≠ [])
      (hle : post.length + s.tun.pending ≤ 1)
  | taken (hend : s.Ended) (hw : s.writing = .done)
      (hle : s.out.queue.items.length + s.tun.pending ≤ 1)

/-- Nothing happens to the packets. -/
theorem Marked.quiet (h : Marked s) (hqueue : s'.out.queue.items = s.out.queue.items)
    (hwriting : s'.writing = .done ↔ s.writing = .done)
    (hend : s.Ended → s'.Ended ∧ s'.tun.pending ≤ s.tun.pending) : Marked s' := by
  cases h with
  | unmarked hw hitems => exact .unmarked (fun hd => hw (hwriting.mp hd)) (hqueue ▸ hitems)
  | marked he hw pre post hitems hpre hle =>
    exact .marked (hend he).1 (fun hd => hw (hwriting.mp hd)) pre post (hqueue.trans hitems) hpre
      (Nat.le_trans (Nat.add_le_add_left (hend he).2 _) hle)
  | taken he hw hle =>
    refine .taken (hend he).1 (hwriting.mpr hw) ?_
    rw [hqueue]
    exact Nat.le_trans (Nat.add_le_add_left (hend he).2 _) hle

/-- `comm_tun` puts its packet into the queue. -/
theorem Marked.push (h : Marked s) {p : Bytes} (hp : p ≠ [])
    (hqueue : s'.out.queue.items = s.out.queue.items ++ [p]) (hwriting : s'.writing = s.writing)
    (hend : s.Ended → s'.Ended) (hpending : s'.tun.pending + 1 ≤ s.tun.pending) : Marked s' := by
  cases h with
  | unmarked hw hitems =>
    refine .unmarked (hwriting ▸ hw) fun q hq => ?_
    rw [hqueue] at hq
    rcases List.mem_append.mp hq with hq | hq
    · exact hitems q hq
    · rw [List.mem_singleton.mp hq]
      exact hp
  | marked he hw pre post hitems hpre hle =>
    refine .marked (hend he) (hwriting ▸ hw) pre (post ++ [p]) ?_ hpre ?_
    · rw [hqueue, hitems]
      simp
    · rw [List.length_append, List.length_singleton]
      omega
  | taken he hw hle =>
    refine .taken (hend he) (hwriting ▸ hw) ?_
    rw [hqueue, List.length_append, List.length_singleton]
    omega

theorem Marked.tunWrite (h : Marked s) {packet : TunPacket tunMtu} {out : Bio} {returned : Bool}
    {tun : TunPc tunMtu} (hw : Written commTun packet.bytes s.out out returned)
    (hpending : s.tun.pending = 1) (htun : returned = false → tun = s.tun)
    (htun' : returned = true → tun.pending = 0) : Marked { s with out := out, tun := tun } := by
  cases hw with
  | dropped hout =>
    refine h.quiet (by rw [hout]) Iff.rfl fun he => ⟨he, ?_⟩
    rw [htun' rfl]
    exact Nat.zero_le _
  | waits hqueue =>
    refine h.quiet (by rw [hqueue]) Iff.rfl fun he => ⟨he, ?_⟩
    rw [htun rfl]
  | stored hqueue =>
    refine h.push packet.ne_nil (by rw [hqueue]) rfl id ?_
    rw [htun' rfl, hpending]

theorem Marked.tunStep (h : Marked s) (hok : Ok s) {env : Env} (hs : s.tunStep env = some s') :
    Marked s' := by
  cases tunMoves_of_tunStep hs with
  | starts hpc =>
    have hstart := hok.born (by rw [hpc]; rfl)
    refine h.quiet rfl Iff.rfl fun he => ?_
    rcases he.2 with htop | hdone
    · rw [hstart] at htop
      cases htop
    · rw [hstart] at hdone
      cases hdone
  | writes packet out returned tun hcall hpending hw hwaits hreturns hcreates =>
    obtain ⟨-, hwritten⟩ := hok.tunWrite hcall hw hwaits hcreates
    exact h.tunWrite hwritten hpending hwaits hreturns

/-- A step of `peer_handling` before or after `end_SSL_writing`. -/
theorem Marked.handlerMove (h : Marked s) (hout : s'.out = s.out) (htun : s'.tun = s.tun)
    (hwriting : s'.writing = .done ↔ s.writing = .done) (hend : s.Ended → s'.Ended) :
    Marked s' :=
  h.quiet (by rw [hout]) hwriting fun he => ⟨hend he, by rw [htun]⟩

theorem Marked.handlerTop (h : Marked s) (endCampagnol : Bool) :
    Marked (s.handlerTop endCampagnol) := by
  have hclosed : s.Ended → (s.handlerTop endCampagnol).Ended := by
    rintro ⟨hstate, -⟩
    simp only [State.handlerTop, hstate]
    exact ⟨rfl, .inr rfl⟩
  have hsame : (s.handlerTop endCampagnol).out = s.out ∧
      (s.handlerTop endCampagnol).tun = s.tun ∧
      (s.handlerTop endCampagnol).writing = s.writing := by
    unfold State.handlerTop
    split
    · split <;> exact ⟨rfl, rfl, rfl⟩
    · split <;> exact ⟨rfl, rfl, rfl⟩
    · split <;> exact ⟨rfl, rfl, rfl⟩
    · exact ⟨rfl, rfl, rfl⟩
    · exact ⟨rfl, rfl, rfl⟩
  exact h.handlerMove hsame.1 hsame.2.1 (by rw [hsame.2.2]) hclosed

/-- A step of `end_SSL_writing`. -/
theorem Marked.endWriting (h : Marked s) (hok : Ok s) {out : Bio} {returned : Bool}
    (hpc : s.handler = .ending) (hw : Written peerHandling [] s.out out returned) :
    Marked { s with out := out, handler := if returned then .top else .ending } := by
  have hagrees := hok.agrees
  rw [hpc] at hagrees
  cases h with
  | marked he => exact absurd he (not_ended hpc)
  | taken he => exact absurd he (not_ended hpc)
  | unmarked hwriting hitems =>
    cases hw with
    | dropped hout => exact .unmarked hwriting (by rw [hout]; exact hitems)
    | waits hqueue => exact .unmarked hwriting (by rw [hqueue]; exact hitems)
    | stored hqueue =>
      refine .marked ⟨hagrees.1, .inl rfl⟩ hwriting s.out.queue.items [] (by rw [hqueue]) hitems ?_
      rw [List.length_nil, Nat.zero_add]
      cases s.tun <;> first | exact Nat.le_refl _ | exact Nat.zero_le _

theorem Marked.handlerStep (h : Marked s) (hok : Ok s) {env : Env} {ok endCampagnol : Bool}
    {read : SslRead} (hs : s.handlerStep env ok endCampagnol read = some s') : Marked s' := by
  have hnot : ∀ pc, s.handler = pc → pc ≠ .top → pc ≠ .done → ¬ s.Ended := by
    rintro pc hpc htop hdone ⟨-, hp⟩
    rw [hpc] at hp
    exact hp.elim htop hdone
  have hagrees := hok.agrees
  unfold State.handlerStep at hs
  split at hs
  · cases hs
  · cases hs
  · rename_i hpc
    cases hs
    rw [hpc] at hagrees
    refine h.handlerMove rfl rfl ⟨(fun hd => by cases hd), fun hd => ?_⟩ fun he =>
      absurd he (hnot _ hpc (by simp) (by simp))
    rw [hd] at hagrees
    cases hagrees
  · rename_i hpc
    obtain ⟨⟨out, returned⟩, hw, rfl⟩ := Option.map_eq_some_iff.mp hs
    exact h.endWriting hok hpc (hok.endWriting hpc hw).2
  · split at hs
    · cases hs
    · split at hs <;> cases hs <;> rename_i hpc
      · exact h.handlerTop _
      · exact h.handlerMove rfl rfl Iff.rfl fun he => absurd he (hnot _ hpc (by simp) (by simp))
      · exact h.handlerMove rfl rfl Iff.rfl fun he => absurd he (hnot _ hpc (by simp) (by simp))
      · exact h.handlerMove rfl rfl Iff.rfl fun he => absurd he (hnot _ hpc (by simp) (by simp))
      · have hended := hnot _ hpc (by simp) (by simp)
        unfold State.handlerRead
        split
        · exact h
        · exact h
        · exact h
        · exact h.handlerMove rfl rfl Iff.rfl fun he => absurd he hended
        · exact h.handlerMove rfl rfl Iff.rfl fun he => absurd he hended

/-- A packet that is not empty is not empty for `SSL_writing`. -/
theorem take_ne_nil {p : Bytes} (hp : p ≠ []) : (p.take (messageMaxLength tunMtu)).length ≠ 0 := by
  have hpos := List.length_pos_iff.mpr hp
  have hmax : 0 < messageMaxLength tunMtu := Nat.succ_pos _
  rw [List.length_take]
  omega

/-- What `SSL_writing` does with the result of `BIO_read`. -/
def WritingPc.after : Option Bytes → WritingPc
  | none => .top
  | some packet => if packet.length = 0 then .done else .got packet

theorem Marked.bioRead (h : Marked s) {out : Bio} {packet : Option Bytes}
    (hpc : s.writing = .top) (hr : Read sslWriting (messageMaxLength tunMtu) s.out out packet) :
    Marked { s with out := out, writing := .after packet } := by
  cases hr with
  | waits deadline hqueue =>
    refine h.quiet (by rw [hqueue]) ⟨(fun hd => by cases hd), fun hd => ?_⟩
      fun he => ⟨he, Nat.le_refl _⟩
    rw [hpc] at hd
    cases hd
  | taken p hitems =>
    have hgot : p ≠ [] → WritingPc.after (some (p.take (messageMaxLength tunMtu))) ≠ .done := by
      intro hp
      rw [WritingPc.after, if_neg (take_ne_nil hp)]
      simp
    cases h with
    | unmarked hw hne =>
      have hp : p ≠ [] := hne p (by rw [hitems]; exact List.mem_cons_self)
      exact .unmarked (hgot hp) fun q hq => hne q (by rw [hitems]; exact List.mem_cons_of_mem _ hq)
    | marked he hw pre post hmarked hpre hle =>
      rw [hitems] at hmarked
      cases pre with
      | nil =>
        -- the packet of length 0
        obtain ⟨rfl, hpost⟩ := List.cons.inj hmarked
        refine .taken he rfl ?_
        dsimp only
        rw [hpost]
        exact hle
      | cons q pre =>
        obtain ⟨rfl, hrest⟩ := List.cons.inj hmarked
        have hp : p ≠ [] := hpre p List.mem_cons_self
        exact .marked he (hgot hp) pre post hrest (fun q hq => hpre q (List.mem_cons_of_mem _ hq))
          hle
    | taken he hw =>
      rw [hpc] at hw
      cases hw

theorem Marked.writingStep (h : Marked s) (hok : Ok s) {env : Env} {result : SslWrite}
    (hresult : result ≠ .zeroReturn ∧ result ≠ .sslError false)
    (hs : s.writingStep env result = some s') : Marked s' := by
  unfold State.writingStep at hs
  split at hs
  · cases hs
  · cases hs
  · rename_i hpc
    cases hs
    exact h.quiet rfl ⟨(fun hd => by cases hd), (fun hd => by rw [hpc] at hd; cases hd)⟩
      fun he => ⟨he, Nat.le_refl _⟩
  · rename_i hpc
    obtain ⟨⟨out, packet⟩, hr, rfl⟩ := Option.map_eq_some_iff.mp hs
    have hfits := hok.fits sslWriting
    rw [call_sslWriting, hpc] at hfits
    have hmarked := h.bioRead hpc (bioRead_cases hok.inv hok.sized hfits hr).2.2
    cases packet <;> exact hmarked
  · rename_i packet hpc
    cases hs
    have hnot : s.writing ≠ .done := by rw [hpc]; simp
    refine h.quiet rfl ⟨fun hd => ?_, fun hd => absurd hd hnot⟩ fun he => ⟨he, Nat.le_refl _⟩
    dsimp only at hd
    split at hd
    · cases hd
    · cases hd
    · cases hd
    · cases hd
    · exact absurd rfl hresult.1
    · exact absurd rfl hresult.2

theorem Marked.tunBegins (h : Marked s) (hs : TunBegins s s') : Marked s' := by
  cases hs with
  | ignored => exact h
  | begins tun _ hopen => exact h.quiet rfl Iff.rfl fun he => absurd he.1 hopen

theorem Marked.step (h : Marked s) (hok : Ok s) (ha : NoSslFailure a)
    (hs : Writing.step s a = some s') : Marked s' := by
  cases a with
  | tunPacket packet => exact h.tunBegins (tunBegins_of_tunPacket hs)
  | tunBroadcast packet => exact h.tunBegins (tunBegins_of_tunBroadcast hs)
  | tunStep env => exact h.tunStep hok hs
  | handlerStep env ok endCampagnol read => exact h.handlerStep hok hs
  | writingStep env result => exact h.writingStep hok ha hs

theorem marked_initial (h₀ : outFifo tunMtu fifoSize hsize mallocs junk = some out)
    (hi : Initial out s₀) : Marked s₀ := by
  obtain ⟨-, -, -, hqueue⟩ := outFifo_idle h₀
  cases hi with
  | requested packet =>
    refine .unmarked (by simp [State.requested]) fun p hp => ?_
    rw [State.requested, hqueue] at hp
    cases hp
  | called =>
    refine .unmarked (by simp [State.called]) fun p hp => ?_
    rw [State.called, hqueue] at hp
    cases hp

/-- What the runs keep in which `SSL_writing` does not fail. -/
theorem marked_of_steps {ok : State tunMtu → Act tunMtu → Prop}
    (h₀ : outFifo tunMtu fifoSize hsize mallocs junk = some out) (hi : Initial out s₀)
    (hok : ∀ s a, ok s a → NoSslFailure a) (h : Steps step ok s₀ s) : Ok s ∧ Marked s := by
  refine Steps.invariant (P := fun s => Ok s ∧ Marked s) h
    ⟨ok_initial h₀ hi, marked_initial h₀ hi⟩ ?_
  intro t a u ht ha hu
  exact ⟨ht.1.step hu, ht.2.step ht.1 (hok t a ha) hu⟩

/-- A sleeping writer is in its call. -/
theorem fits_sleepsWrite {c : Call} {pc : Fifo.Pc} (h : c.Fits pc) (hs : pc.sleepsWrite = true) :
    ∃ buf, c = .write buf := by
  cases c with
  | write buf => exact ⟨buf, rfl⟩
  | _ =>
    cases pc with
    | writeSleep buf => exact h.elim
    | _ => cases hs

theorem Marked.not_stuck (h : Marked s) (hok : Ok s) : ¬ Stuck s := by
  intro hstuck
  cases h with
  | unmarked hw => exact hw hstuck.returned
  | marked _ hw => exact hw hstuck.returned
  | taken he hw hle =>
    have hlen : s.out.queue.items.length = s.out.d.size :=
      (Fifo.Bio.full_iff.mpr hstuck.full : s.out.queue.Full)
    have hpos := s.out.d.size_pos
    rcases hstuck.asleep with htun | hhandler
    · obtain ⟨buf, hbuf⟩ := fits_sleepsWrite (hok.fits commTun) htun
      have hpending : s.tun.pending = 1 := by
        rw [call_commTun] at hbuf
        cases htun : s.tun <;> rw [htun] at hbuf <;> first | rfl | cases hbuf
      omega
    · obtain ⟨buf, hbuf⟩ := fits_sleepsWrite (hok.fits peerHandling) hhandler
      rw [call_peerHandling] at hbuf
      rcases he.2 with htop | hdone
      · rw [htop] at hbuf
        cases hbuf
      · rw [hdone] at hbuf
        cases hbuf

/-- In every run in which no `SSL_write` of `SSL_writing` fails with SSL_ERROR_ZERO_RETURN or,
without a shutdown, with SSL_ERROR_SSL, nobody sleeps on a full queue whose reader has returned. -/
theorem no_dead_consumer (h₀ : outFifo tunMtu fifoSize hsize mallocs junk = some out)
    (hi : Initial out s₀) (h : Steps step (fun _ => NoSslFailure) s₀ s) : ¬ Stuck s := by
  obtain ⟨hok, hmarked⟩ := marked_of_steps h₀ hi (fun _ _ ha => ha) h
  exact hmarked.not_stuck hok

/-- A queue of one packet, with the default MTU. -/
def outFifo₁ : Option Bio :=
  outFifo 1419 1 (by decide) (fun _ => true) fun _ => ⟨0, 0, List.replicate 1619 0⟩

/-- The header of an IP packet. -/
def header : TunPacket 1419 := ⟨List.replicate 20 69, by simp, by decide⟩

/-- The next step of `peer_handling`, with this result of `SSL_read`. -/
def handle (read : SslRead) : Act 1419 := .handlerStep Fifo.env₀ true false read

/-- The next step of `SSL_writing`, with this result of `SSL_write`. -/
def send (result : SslWrite) : Act 1419 := .writingStep Fifo.env₀ result

/-- The packet that creates the peer fills the queue. Then the session opens, and `peer_handling`
has created the `SSL_writing` thread. -/
def opened : List (Act 1419) :=
  [.tunStep Fifo.env₀, .tunStep Fifo.env₀] ++ List.replicate 8 (handle .again)

/-- `comm_tun` writes a packet after `SSL_writing` has taken the packet of length 0. -/
def lateWrite : List (Act 1419) :=
  opened ++ [send .written, send .written, send .written, .tunPacket header, handle .failed,
    handle .again, send .written, .tunStep Fifo.env₀]

theorem no_dead_consumer_lateWrite :
    ∃ out s, outFifo₁ = some out ∧ Steps step (fun _ => NoSslFailure) (.requested out header) s ∧
      s.writing = .done ∧ s.out.d.nelem = s.out.d.size ∧ s.out.d.droptail = 0 ∧ ¬ Stuck s := by
  have hrun : (outFifo₁.bind fun out =>
      (runOk step (fun _ => NoSslFailure) lateWrite (.requested out header)).map fun s =>
        (s.writing, s.out.d.nelem, s.out.d.size, s.out.d.droptail)) =
          some (.done, 1, 1, 0) := by decide +kernel
  obtain ⟨out, hout, hrun⟩ := Option.bind_eq_some_iff.mp hrun
  obtain ⟨s, hs, heq⟩ := Option.map_eq_some_iff.mp hrun
  simp only [Prod.mk.injEq] at heq
  obtain ⟨hdone, hnelem, hsize, hdrop⟩ := heq
  have hsteps := Steps.of_runOk .refl hs
  exact ⟨out, s, hout, hsteps, hdone, hnelem.trans hsize.symm, hdrop,
    no_dead_consumer hout (.requested header) hsteps⟩

/-- `SSL_writing` returns after SSL_ERROR_ZERO_RETURN while the session is open: the next packet
fills the queue, and `comm_tun` waits with the one after it. -/
def failedWrite : List (Act 1419) :=
  opened ++ [send .written, send .written, send .zeroReturn, .tunPacket header,
    .tunStep Fifo.env₀, .tunPacket header, .tunStep Fifo.env₀]

theorem dead_consumer_after_zeroReturn :
    ∃ out s, outFifo₁ = some out ∧ Steps step (fun _ _ => True) (.requested out header) s ∧
      Stuck s := by
  have hrun : (outFifo₁.bind fun out =>
      (run step failedWrite (.requested out header)).map fun s =>
        (s.writing, s.out.d.nelem, s.out.d.size, s.out.d.droptail,
          (s.out.pc commTun).sleepsWrite)) = some (.done, 1, 1, 0, true) := by decide +kernel
  obtain ⟨out, hout, hrun⟩ := Option.bind_eq_some_iff.mp hrun
  obtain ⟨s, hs, heq⟩ := Option.map_eq_some_iff.mp hrun
  simp only [Prod.mk.injEq] at heq
  obtain ⟨hdone, hnelem, hsize, hdrop, hasleep⟩ := heq
  exact ⟨out, s, hout, Steps.of_run .refl hs,
    ⟨hdone, hnelem.trans hsize.symm, hdrop, .inl hasleep⟩⟩

end Runs

end Writing
end Client
end Campagnol
