import Campagnol.Client.Invariants
import Campagnol.Config.Numbers

/-!
# Inactive sessions

`peer_handling` closes a session that has been inactive for `timeout` seconds, the DTLS server 10
seconds later than the DTLS client. The sum `config.timeout + 10` is an `int`
(`inactivity_exact_iff`).
-/

namespace Campagnol
namespace Client

open Config (optTimeout INT_MAX)

variable {config : Configuration} {s : State} {p : Ptr} {now lastTime : Int}

/-- The thread of `p` runs the inactivity test after a timeout of `SSL_read`. -/
structure TestsInactivity (s : State) (p : Ptr) (now lastTime : Int) : Prop where
  state : (s.reg.peer p).state = .established
  time : now ≠ lastTime
  idle : 0 ≤ now - (s.reg.peer p).time

/-- It closes the session. -/
def Closes (config : Configuration) (s : State) (p : Ptr) (now lastTime : Int) : Prop :=
  ((s.handlerIdle config p now lastTime).reg.peer p).state = .closed

/-- A session is closed exactly when it has been idle for longer than the timeout, or for 10 seconds
more on the side of the DTLS server, which therefore never closes it first. -/
structure ExactTimeout (config : Configuration) : Prop where
  client : ∀ s p now lastTime, TestsInactivity s p now lastTime →
    (s.reg.peer p).isDtlsClient = true →
      (Closes config s p now lastTime ↔ config.timeout < now - (s.reg.peer p).time)
  server : ∀ s p now lastTime, TestsInactivity s p now lastTime →
    (s.reg.peer p).isDtlsClient = false →
      (Closes config s p now lastTime ↔ config.timeout + 10 < now - (s.reg.peer p).time)
  order : ∀ s p s' p' now now' lastTime lastTime', TestsInactivity s p now lastTime →
    (s.reg.peer p).isDtlsClient = false → Closes config s p now lastTime →
      TestsInactivity s' p' now' lastTime' → (s'.reg.peer p').isDtlsClient = true →
        now' - (s'.reg.peer p').time = now - (s.reg.peer p).time →
          Closes config s' p' now' lastTime'

theorem closes_iff (h : TestsInactivity s p now lastTime) :
    Closes config s p now lastTime ↔ State.sessionTimeout config (s.reg.peer p) now = true := by
  have hstate := h.state
  rw [Closes, State.handlerIdle, if_neg h.time]
  dsimp only
  by_cases hkeep : now - (s.reg.peer p).lastKeepalive > config.keepalive <;>
    by_cases htest : State.sessionTimeout config (s.reg.peer p) now = true <;>
      simp [hkeep, htest, State.goto, State.changeState, State.send, State.modify, hstate]

theorem closes_iff_of_client (h : TestsInactivity s p now lastTime)
    (hrole : (s.reg.peer p).isDtlsClient = true) :
    Closes config s p now lastTime ↔ config.timeout < now - (s.reg.peer p).time := by
  rw [closes_iff h, State.sessionTimeout, hrole]
  simp

theorem closes_iff_of_server (h : TestsInactivity s p now lastTime)
    (hrole : (s.reg.peer p).isDtlsClient = false) :
    Closes config s p now lastTime ↔
      Int.bmod (config.timeout + 10) 0x100000000 < now - (s.reg.peer p).time := by
  rw [closes_iff h, State.sessionTimeout, hrole]
  simp

/-- The sum wraps around at the end of the range of `int`. -/
theorem bmod_add_ten {t : Int} (hlow : 5 ≤ t) (hhigh : t ≤ INT_MAX) :
    Int.bmod (t + 10) 0x100000000 = if t ≤ INT_MAX - 10 then t + 10 else t + 10 - 0x100000000 := by
  rw [INT_MAX] at *
  by_cases hle : t ≤ 0x7FFFFFFF - 10
  · rw [if_pos hle, Int.bmod_def]
    omega
  · rw [if_neg hle, Int.bmod_def]
    omega

/-- A session on the side of the DTLS server in which a packet has just come in. -/
def activeServer : State :=
  { State.init with
    reg := { Registry.init with
      peer := fun _ => ⟨0, 0, ⟨10, 7⟩, 101, .established, false, .unknown 0, false, 3⟩ } }

theorem testsInactivity_activeServer : TestsInactivity activeServer 0 0 (-1) :=
  ⟨rfl, by decide, by decide⟩

/-- For every timeout that can be configured, sessions are closed at the right time if and only if
adding 10 to it does not leave the range of `int`. -/
theorem inactivity_exact_iff (config : Configuration) (h : optTimeout.Accepts config.timeout) :
    ExactTimeout config ↔ config.timeout ≤ INT_MAX - 10 := by
  obtain ⟨hlow, hhigh⟩ := (Config.optTimeout_accepts_iff _).mp h
  have hsum := bmod_add_ten hlow hhigh
  constructor
  · intro hexact
    by_contra hgt
    rw [if_neg hgt] at hsum
    have hidle : (0 : Int) - (activeServer.reg.peer 0).time = 0 := rfl
    have hcloses : Closes config activeServer 0 0 (-1) := by
      rw [closes_iff_of_server testsInactivity_activeServer rfl, hsum, hidle]
      simp only [INT_MAX] at hhigh
      omega
    rw [hexact.server _ _ _ _ testsInactivity_activeServer rfl, hidle] at hcloses
    omega
  · intro hle
    rw [if_pos hle] at hsum
    refine ⟨fun s p now lastTime ht hrole => closes_iff_of_client ht hrole,
      fun s p now lastTime ht hrole => ?_, ?_⟩
    · rw [closes_iff_of_server ht hrole, hsum]
    · intro s p s' p' now now' lastTime lastTime' ht hrole hcloses ht' hrole' hidle
      rw [closes_iff_of_server ht hrole, hsum] at hcloses
      rw [closes_iff_of_client ht' hrole', hidle]
      omega

/-- A client with the timeout `t`. -/
def clientTimeout (t : Int) : Configuration := { client100 with timeout := t }

theorem inactivity_exact_iff_default :
    optTimeout.Accepts (clientTimeout 120).timeout ∧ ExactTimeout (clientTimeout 120) := by
  have haccepts : optTimeout.Accepts (clientTimeout 120).timeout := ⟨none, rfl⟩
  exact ⟨haccepts, (inactivity_exact_iff (clientTimeout 120) haccepts).mpr (by decide)⟩

/-- With the largest timeout the DTLS server closes a session in which a packet has just come in. -/
theorem inactivity_not_exact_INT_MAX :
    optTimeout.Accepts (clientTimeout INT_MAX).timeout ∧
      Closes (clientTimeout INT_MAX) activeServer 0 0 (-1) ∧
        ¬ ExactTimeout (clientTimeout INT_MAX) := by
  have hcloses : Closes (clientTimeout INT_MAX) activeServer 0 0 (-1) := by
    rw [closes_iff_of_server testsInactivity_activeServer rfl]
    decide
  refine ⟨(Config.optTimeout_accepts_iff _).mpr (by decide), hcloses, fun hexact => ?_⟩
  rw [hexact.server _ _ _ _ testsInactivity_activeServer rfl] at hcloses
  exact absurd hcloses (by decide)

end Client
end Campagnol
