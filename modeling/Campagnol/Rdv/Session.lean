import Campagnol.Rdv.Peer

/-!
# The session table of the RDV server

`rdvserver/session.c`: the list of sessions and the tree that finds a session by the
addresses of its two clients.
-/

namespace Campagnol
namespace Rdv

open SearchTree

/-- `compare_sessions`: by the first client, then by the second, both as pointers. -/
def compareSessions (a b : Ptr × Ptr) : Ordering :=
  if a.1 < b.1 then .lt
  else if a.1 = b.1 then
    if a.2 < b.2 then .lt
    else if a.2 = b.2 then .eq
    else .gt
  else .gt

theorem compareSessions_eq : compareSessions =
    compareLex (compareOn Prod.fst) (compareOn Prod.snd) := by
  funext a b
  have h : ∀ x y : ℕ, compare x y = if x < y then .lt else if x = y then .eq else .gt :=
    fun _ _ => rfl
  simp only [compareSessions, compareLex, compareOn, h]
  split
  · rfl
  · split <;> rfl

instance : Std.TransCmp compareSessions := by
  rw [compareSessions_eq]; infer_instance

instance : Std.LawfulEqCmp compareSessions where
  eq_of_compare {a b} h := by
    rw [compareSessions_eq, compareLex_eq_eq] at h
    obtain ⟨h₁, h₂⟩ := h
    exact Prod.ext (Std.LawfulEqCmp.eq_of_compare h₁) (Std.LawfulEqCmp.eq_of_compare h₂)

/-- `struct session`. -/
structure Session where
  peer1 : Ptr
  peer2 : Ptr
  time : Int
deriving Repr, DecidableEq, Inhabited

/-- The variables of `session.c`: the allocated sessions, the list `sessions` and the
tree `sessions_root`. -/
structure SessionTable where
  session : Heap Session
  sessions : Links Ptr
  sessionsRoot : SearchTree.Tree Ptr

/-- No session is open. -/
def SessionTable.init : SessionTable where
  session := .empty
  sessions := .empty
  sessionsRoot := .leaf

/-- Outcomes of the allocations of one call of `add_session`. -/
structure SessionAlloc where
  malloc : Malloc
  tsearch : Bool

/-- `*sess`. -/
def sessionOf (h : Heap Session) (sess : Ptr) : Session := (h.get sess).getD default

/-- What `compare_sessions` reads of an item. -/
def peersKey (h : Heap Session) (sess : Ptr) : Ptr × Ptr :=
  ((sessionOf h sess).peer1, (sessionOf h sess).peer2)

namespace SessionTable

/-- `*sess`. -/
def sessionAt (w : SessionTable) (sess : Ptr) : Session := sessionOf w.session sess

/-- `sess->peer1` and `sess->peer2`. -/
def peersOf (w : SessionTable) (sess : Ptr) : Ptr × Ptr := peersKey w.session sess

/-- `get_session`. -/
def getSession (w : SessionTable) (peer1 peer2 : Ptr) : Option Ptr :=
  tfind compareSessions (peersKey w.session) (peer1, peer2) w.sessionsRoot

/-- `add_session`. -/
def addSession (env : SessionAlloc) (w : SessionTable) (peer1 peer2 : Ptr) (t : Int) :
    Option Ptr × SessionTable :=
  match env.malloc.malloc w.session.inUse with
  | none => (none, w)
  | some sess =>
    let session := w.session.alloc sess ⟨peer1, peer2, t⟩
    match tsearch compareSessions (peersKey session) env.tsearch sess w.sessionsRoot with
    | none => (none, { w with session := session.free sess })
    | some root =>
      (some sess, { w with
        session := session
        sessionsRoot := root
        sessions := w.sessions.pushFront sess })

/-- `remove_session`. -/
def removeSession (w : SessionTable) (sess : Ptr) : SessionTable :=
  { w with
    sessions := w.sessions.unlink sess
    sessionsRoot := tdelete compareSessions (peersKey w.session) (w.peersOf sess) w.sessionsRoot
    session := w.session.free sess }

/-- `session_update_time`, at the clock value `now`. -/
def sessionUpdateTime (now : Int) (w : SessionTable) (sess : Ptr) : SessionTable :=
  { w with session := w.session.modify sess fun x => { x with time := now } }

/-- `sess->peer1 == peer || sess->peer2 == peer`. -/
def involves (w : SessionTable) (peer sess : Ptr) : Bool :=
  (w.sessionAt sess).peer1 = peer ∨ (w.sessionAt sess).peer2 = peer

/-- `remove_sessions_with_client`: one walk over the list, which removes nodes as it
goes. The number of live sessions bounds the walk. -/
def removeSessionsWithClient (w : SessionTable) (peer : Ptr) : SessionTable :=
  Links.walk (fun w sess => w.sessions.next sess)
    (fun sess w => if w.involves peer sess then w.removeSession sess else w)
    w.session.size w.sessions.head w

/-- `if (sess_tmp != NULL) remove_session(sess_tmp);` for the session of two clients. -/
def removeSessionBetween (w : SessionTable) (peer1 peer2 : Ptr) : SessionTable :=
  match w.getSession peer1 peer2 with
  | some sess => w.removeSession sess
  | none => w

end SessionTable
end Rdv
end Campagnol
