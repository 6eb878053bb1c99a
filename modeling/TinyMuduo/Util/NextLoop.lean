import Mathlib.Data.Int.CardIntervalMod
import TinyMuduo.Util.ConnectionRuns

/-!
# Which loop a connection gets

`NextLoop` deals the connections out in turn, so the loop of a connection is
known from its number (`home`), and no loop is ever two connections ahead of
another one. The loop never changes, and everything but `HandleCloseInLoop` is
called by its thread. The identifier in the logs is the number again, up to a
multiple of `INT_MAX - 1`.
-/

namespace TinyMuduo

open Transition

/-- The loop of connection `p` among `n` IO loops. -/
def home (n : ℕ) (p : ConnectionId) : ℕ := if n = 0 then 0 else p % n + 1

def kIntMax : ℕ := 2147483647

/-- `next_connection_id_` when connection `p` is made. -/
def connectionId : ConnectionId → ℕ
  | 0 => 1
  | p + 1 => if connectionId p + 1 = kIntMax then 1 else connectionId p + 1

theorem connectionId_eq (p : ConnectionId) : connectionId p = 1 + p % (kIntMax - 1) := by
  induction p with
  | zero => rfl
  | succ p ih =>
      rw [connectionId, ih]
      by_cases hmax : 1 + p % (kIntMax - 1) + 1 = kIntMax
      · rw [if_pos hmax]
        simp only [kIntMax] at *
        omega
      · rw [if_neg hmax]
        simp only [kIntMax] at *
        omega

theorem succ_mod (m n : ℕ) : (m + 1) % n = if m % n + 1 = n then 0 else m % n + 1 := by
  have hdiv := Nat.div_add_mod m n
  by_cases h : m % n + 1 = n
  · rw [if_pos h, show m + 1 = n * (m / n + 1) by rw [Nat.mul_add]; omega]
    exact Nat.mul_mod_right n _
  · rw [if_neg h, show m + 1 = n * (m / n) + (m % n + 1) by omega, Nat.mul_add_mod]
    rcases Nat.eq_zero_or_pos n with rfl | hn
    · exact Nat.mod_zero _
    · have hlt := Nat.mod_lt m hn
      exact Nat.mod_eq_of_lt (by omega)

/-! ## Placement is an invariant -/

namespace TcpServer

variable {n : ℕ} {s t : TcpServer}

/-- The loops of the connections, and the place in the rotation. -/
structure Placed (n : ℕ) (s : TcpServer) : Prop where
  objects : ∀ p c, s.objects p = some c → c.loop = home n p
  next : 0 < n → s.next = s.made % n

theorem placed_new (n : ℕ) : Placed n new where
  objects p c h := by cases h
  next _ := (Nat.zero_mod n).symm

/-- No object is moved to another loop, and none is made. -/
structure Stays (s t : TcpServer) : Prop where
  objects : ∀ p c', t.objects p = some c' → ∃ c, s.objects p = some c ∧ c'.loop = c.loop
  next : t.next = s.next
  made : t.made = s.made

theorem Stays.placed (h : Stays s t) (hs : Placed n s) : Placed n t where
  objects p c' hc' := by
    obtain ⟨c, hc, hloop⟩ := h.objects p c' hc'
    exact hloop.trans (hs.objects p c hc)
  next hn := by rw [h.next, h.made, hs.next hn]

theorem Stays.of_eq (hobjects : t.objects = s.objects) (hnext : t.next = s.next)
    (hmade : t.made = s.made) : Stays s t where
  objects p c' hc' := ⟨c', by rw [← hobjects]; exact hc', rfl⟩
  next := hnext
  made := hmade

theorem Stays.trans {u : TcpServer} (h : Stays s t) (h' : Stays t u) : Stays s u where
  objects p c' hc' := by
    obtain ⟨c₁, hc₁, h₁⟩ := h'.objects p c' hc'
    obtain ⟨c, hc, h₂⟩ := h.objects p c₁ hc₁
    exact ⟨c, hc, h₁.trans h₂⟩
  next := h'.next.trans h.next
  made := h'.made.trans h.made

theorem stays_runOneFunc (caller L : ℕ) (f : Functor) (s : TcpServer) :
    Stays s (s.runOneFunc caller L f) := by
  unfold runOneFunc
  split
  · exact .of_eq rfl rfl rfl
  · exact .of_eq rfl rfl rfl

theorem Stays.update {p : ConnectionId} {c : ConnectionObject} (hc : s.objects p = some c)
    (conn : TcpConnection)
    (hobjects : t.objects = Function.update s.objects p (some { c with conn := conn }))
    (hnext : t.next = s.next) (hmade : t.made = s.made) : Stays s t where
  objects q c' hc' := by
    rw [hobjects] at hc'
    by_cases hq : q = p
    · subst hq
      rw [Function.update_self] at hc'
      cases hc'
      exact ⟨c, hc, rfl⟩
    · rw [Function.update_of_ne hq] at hc'
      exact ⟨c', hc', rfl⟩
  next := hnext
  made := hmade

theorem stays_withPoller {p : ConnectionId}
    {member : TcpConnection → Epoller ConnectionId → TcpConnection × Epoller ConnectionId}
    (h : s.withPoller p member = some t) : Stays s t := by
  obtain ⟨c, hc, rfl⟩ := withPoller_cases h
  exact .update hc _ rfl rfl rfl

theorem stays_shutdown {p : ConnectionId} (h : s.shutdown p = some t) : Stays s t := by
  obtain ⟨c, hc, rfl⟩ := shutdown_cases h
  exact .update hc _ rfl rfl rfl

theorem stays_destroy {p : ConnectionId} (h : s.destroy p = some t) : Stays s t := by
  obtain ⟨c, hc, rfl⟩ := destroy_cases h
  refine ⟨fun q c' hc' => ?_, rfl, rfl⟩
  change Function.update s.objects p none q = some c' at hc'
  by_cases hq : q = p
  · subst hq
    rw [Function.update_self] at hc'
    cases hc'
  · rw [Function.update_of_ne hq] at hc'
    exact ⟨c', hc', rfl⟩

theorem stays_call {f : Functor} (h : s.call f = some t) : Stays s t := by
  cases f with
  | connectionEstablished p =>
      have hmember : s.withPoller p (TcpConnection.connectionEstablished p) = some t := h
      exact stays_withPoller hmember
  | handleCloseInLoop p =>
      obtain ⟨c, -, rfl⟩ := handleCloseInLoop_cases h
      exact .of_eq rfl rfl rfl
  | connectionDestructor p =>
      have hmember : s.withPoller p (TcpConnection.connectionDestructor p) = some t := h
      exact stays_withPoller hmember

/-- `NextLoop` deals out the loop the number says, and moves on by one. -/
theorem Placed.nextLoop (h : Placed n s) :
    s.nextLoop n = (home n s.made, { s with
      next := if n = 0 then s.next else (s.made + 1) % n }) := by
  by_cases hn : n = 0
  · simp [TcpServer.nextLoop, home, hn]
  · have hnext := h.next (Nat.pos_of_ne_zero hn)
    simp only [TcpServer.nextLoop, home, if_neg hn, hnext, succ_mod s.made n]

theorem Placed.handleNewConnection (h : Placed n s) (connfd : ℕ) :
    Placed n (s.handleNewConnection n connfd) := by
  rw [TcpServer.handleNewConnection, h.nextLoop]
  refine (stays_runOneFunc _ _ _ _).placed ⟨fun p c hc => ?_, fun hn => ?_⟩
  · change Function.update s.objects s.made _ p = some c at hc
    by_cases hp : p = s.made
    · subst hp
      rw [Function.update_self] at hc
      cases hc
      rfl
    · rw [Function.update_of_ne hp] at hc
      exact h.objects p c hc
  · exact if_neg (Nat.pos_iff_ne_zero.mp hn)

/-- **One step**: only `HandleNewConnection` places a connection. -/
theorem Placed.step {l : ServerStep} (h : Placed n s) (hstep : Step n s l t) : Placed n t := by
  have hsame : ∀ {u : TcpServer}, u.objects = s.objects → u.next = s.next → u.made = s.made →
      Placed n u := fun h₁ h₂ h₃ => (Stays.of_eq h₁ h₂ h₃).placed h
  cases hstep with
  | @handleNewConnection connfd _ hat hfd =>
      have hplaced := h.handleNewConnection connfd
      exact ⟨hplaced.objects, hplaced.next⟩
  | poll => exact hsame rfl rfl rfl
  | handleEvent => exact hsame rfl rfl rfl
  | handleClose hat ht =>
      obtain ⟨u, hu, ht⟩ := Option.bind_eq_some_iff.mp ht
      obtain rfl := Option.some.inj ht
      exact ((stays_withPoller hu).trans (stays_runOneFunc _ _ _ _)).placed (hsame rfl rfl rfl)
  | callFunctors => exact hsame rfl rfl rfl
  | runFunctor hat ht => exact (stays_call ht).placed (hsame rfl rfl rfl)
  | runInline hinline ht => exact (stays_call ht).placed (hsame rfl rfl rfl)
  | returnToPoll => exact hsame rfl rfl rfl
  | shutdown _ ht => exact (stays_shutdown ht).placed h
  | keep => exact hsame rfl rfl rfl
  | release => exact hsame rfl rfl rfl
  | destroy _ ht => exact (stays_destroy ht).placed h

def dealt (n : ℕ) (s : TcpServer) (L : ℕ) : ℕ := s.made.count fun p => home n p = L

/-- A loop has its share, and one more when the turn has passed it. -/
theorem dealt_eq {L : ℕ} (hL : 1 ≤ L) (hLn : L ≤ n) :
    s.dealt n L = s.made / n + if L - 1 < s.made % n then 1 else 0 := by
  have hn : 0 < n := by omega
  have hlt : L - 1 < n := by omega
  have hsame : (fun p => home n p = L) = fun p => p ≡ L - 1 [MOD n] := by
    funext p
    rw [home, if_neg (by omega), Nat.ModEq, Nat.mod_eq_of_lt hlt]
    exact propext ⟨fun h => by omega, fun h => by omega⟩
  simp only [dealt, hsame]
  rw [Nat.count_modEq_card _ hn, Nat.mod_eq_of_lt hlt]

end TcpServer

theorem run_placed {n : ℕ} {ms : List (Move TcpServer ServerStep)} {s : TcpServer}
    (h : Run (tcpServer n) ms s) : TcpServer.Placed n s := by
  refine Run.invariant (I := TcpServer.Placed n) ?_ ?_ h
  · rintro s rfl
    exact TcpServer.placed_new n
  · intro s l t hs hstep
    exact hs.step hstep

/-- **Connections and their loops**, in every run of the server with `n` IO loops.
Connection `p` is in loop `p % n + 1` for as long as it exists, and whatever is
called on it but `HandleCloseInLoop` is called by the thread of that loop; no IO
loop has been given two connections more than another one; and two connections
have the same identifier only if `INT_MAX - 1` divides the distance between them. -/
theorem connections_dealt {n : ℕ} {ms : List (Move TcpServer ServerStep)} {s : TcpServer}
    (h : Run (tcpServer n) ms s) :
    (∀ p c, s.objects p = some c → c.loop = home n p) ∧
      (∀ L p call, (s.loops L).nextCall = some (p, call) → call ≠ .handleCloseInLoop →
        L = home n p) ∧
      (∀ L M, 1 ≤ L → L ≤ n → 1 ≤ M → M ≤ n → s.dealt n L ≤ s.dealt n M + 1) ∧
      (∀ p q, 1 ≤ connectionId p ∧ connectionId p < kIntMax ∧
        (connectionId p = connectionId q ↔ p ≡ q [MOD kIntMax - 1])) := by
  have hplaced := run_placed h
  refine ⟨hplaced.objects, ?_, ?_, ?_⟩
  · intro L p call hcall hne
    obtain ⟨a, href, -⟩ := run_refines h
    obtain ⟨c, hc, hmeets⟩ := href.coherent.calls L p call hcall
    have hloop := hplaced.objects p c hc
    cases call with
    | connectionEstablished => exact hmeets.1.symm.trans hloop
    | handleClose => exact hmeets.1.symm.trans hloop
    | connectionDestructor => exact hmeets.1.symm.trans hloop
    | handleCloseInLoop => exact absurd rfl hne
    | handleNewConnection => exact hmeets.elim
    | destructor => exact hmeets.elim
  · intro L M hL hLn hM hMn
    rw [TcpServer.dealt_eq hL hLn, TcpServer.dealt_eq hM hMn]
    split <;> split <;> omega
  · intro p q
    have hlt := Nat.mod_lt p (show 0 < kIntMax - 1 by decide)
    rw [connectionId_eq, connectionId_eq, Nat.ModEq]
    refine ⟨Nat.le_add_right 1 _, ?_, ?_⟩
    · have hmax : 1 + (kIntMax - 1) = kIntMax := rfl
      omega
    · exact ⟨fun h => by omega, fun h => by omega⟩

/-- The third connection goes where the first one went. -/
theorem connections_dealt_three : ∃ ms s, Run (tcpServer 2) ms s ∧ s.made = 3 ∧
    (∀ c, s.objects 2 = some c → c.loop = 1) ∧ s.dealt 2 1 ≤ s.dealt 2 2 + 1 := by
  have h₁ : Run (tcpServer 2) _ _ := .next (.start rfl)
    (show TcpServer.Step 2 _ (.poll 0 []) _ from
      .poll ⟨rfl, rfl⟩ List.nodup_nil (fun _ h => absurd h List.not_mem_nil))
  have h₂ := Run.next h₁ (show TcpServer.Step 2 _ (.handleNewConnection 5) _ from
      .handleNewConnection ⟨rfl, rfl⟩ rfl)
  have h₃ := Run.next h₂ (show TcpServer.Step 2 _ (.handleNewConnection 6) _ from
      .handleNewConnection ⟨rfl, rfl⟩ rfl)
  have h₄ := Run.next h₃ (show TcpServer.Step 2 _ (.handleNewConnection 7) _ from
      .handleNewConnection ⟨rfl, rfl⟩ rfl)
  obtain ⟨hobjects, -, hdealt, -⟩ := connections_dealt h₄
  exact ⟨_, _, h₄, rfl, hobjects 2, hdealt 1 2 (by decide) (by decide) (by decide) (by decide)⟩

end TinyMuduo
