import Mathlib.Data.Nat.ModEq

/-!
# Stop and wait over a network that loses, repeats and reorders

A client numbers its requests and sends each one again until it has the reply.  A server takes a
request when it has the number that is expected, and answers the one before it again with the reply
that it has saved.  On the wire a number is cut to its remainder modulo `M`.  A client that does not
know the number asks for it.

The network keeps what it is given and delivers it whenever it likes, as often as it likes or never.
A parcel is gone when the server has taken `M - 1` requests since it was sent.

Between two requests a network is `Net.Idle`, and while one is under way it is `Net.Waiting`, with the
network as it was before (`Net.Idle.ask`, `Net.Waiting.ask`, `Net.Waiting.serve`).  A reply with the
right number is the reply to the request, which the server has taken once (`Net.Waiting.hear`).
-/

namespace RpiFastbootd

/-- What is on the way: what the server expected when it was sent, and its number on the wire. -/
structure Parcel (α : Type) where
  sent : ℕ
  number : ℕ
  body : α
  deriving DecidableEq

/-- A server with the requests that it has taken, and what has been given to the network, the newest
first.  A request may ask for the number that is expected. -/
structure Net (τ Q R : Type) where
  state : τ
  expected : ℕ
  taken : List Q := []
  saved : Option R := none
  requests : List (Parcel (Option Q)) := []
  replies : List (Parcel (ℕ ⊕ R)) := []

namespace Net

variable {τ Q R α : Type} (M : ℕ) (respond : τ → Q → τ × R)

/-- The parcel has not been overtaken. -/
def Lives (N : Net τ Q R) (p : Parcel α) : Prop := N.expected < p.sent + (M - 1)

instance (N : Net τ Q R) (p : Parcel α) : Decidable (N.Lives M p) :=
  inferInstanceAs (Decidable (_ < _))

def ask (number : ℕ) (body : Option Q) (N : Net τ Q R) : Net τ Q R :=
  { N with requests := ⟨N.expected, number, body⟩ :: N.requests }

def answer (number : ℕ) (body : ℕ ⊕ R) (N : Net τ Q R) : Net τ Q R :=
  { N with replies := ⟨N.expected, number, body⟩ :: N.replies }

/-- The server takes a request. -/
def take (q : Q) (N : Net τ Q R) : Net τ Q R :=
  { N with
    state := (respond N.state q).1
    expected := N.expected + 1
    taken := N.taken ++ [q]
    saved := some (respond N.state q).2 }

/-- The server gets a request with a number. -/
def accept (number : ℕ) (q : Q) (N : Net τ Q R) : Net τ Q R :=
  if number = N.expected % M then
    (N.take respond q).answer number (.inr (respond N.state q).2)
  else if (number + 1) % M = N.expected % M then
    match N.saved with
    | some r => N.answer number (.inr r)
    | none => N
  else N

/-- The network delivers a parcel to the server. -/
def serve (p : Parcel (Option Q)) (N : Net τ Q R) : Net τ Q R :=
  if N.Lives M p then
    match p.body with
    | none => N.answer p.number (.inl (N.expected % M))
    | some q => N.accept M respond p.number q
  else N

/-- The network delivers some parcels, counted from the newest. -/
def deliver : List ℕ → Net τ Q R → Net τ Q R
  | [], N => N
  | i :: l, N =>
    match N.requests[i]? with
    | some p => deliver l (N.serve M respond p)
    | none => deliver l N

/-- The reply that the network delivers. -/
def reply (i : ℕ) (N : Net τ Q R) : Option (Parcel (ℕ ⊕ R)) :=
  match N.replies[i]? with
  | some p => if N.Lives M p then some p else none
  | none => none

/-! ### Between two requests -/

/-- What the server has done. -/
structure Same (N₀ N : Net τ Q R) : Prop where
  state : N.state = N₀.state
  expected : N.expected = N₀.expected
  taken : N.taken = N₀.taken

/-- The server has taken the request. -/
structure Took (N₀ : Net τ Q R) (q : Q) (N : Net τ Q R) : Prop where
  state : N.state = (respond N₀.state q).1
  expected : N.expected = N₀.expected + 1
  taken : N.taken = N₀.taken ++ [q]
  saved : N.saved = some (respond N₀.state q).2

/-- Every request on the way has been taken, and every reply is the reply to one of them. -/
structure Idle (N : Net τ Q R) : Prop where
  asked : ∀ p ∈ N.requests, ∀ q, p.body = some q →
    ∃ m < N.expected, p.number = m % M ∧ p.sent ≤ m + 1
  answered : ∀ p ∈ N.replies, ∀ r, p.body = .inr r →
    ∃ m < N.expected, p.number = m % M ∧ p.sent = m + 1

/-- The request has been asked in the network `N₀`, and has been taken or not. -/
structure Waiting (N N₀ : Net τ Q R) (q : Q) : Prop where
  stage : Same N₀ N ∨ Took respond N₀ q N
  asked : ∀ p ∈ N.requests, ∀ x, p.body = some x →
    ∃ m ≤ N₀.expected, p.number = m % M ∧ p.sent ≤ m + 1 ∧ (m = N₀.expected → x = q)
  answered : ∀ p ∈ N.replies, ∀ r, p.body = .inr r →
    ∃ m < N.expected, p.number = m % M ∧ p.sent = m + 1 ∧
      (m = N₀.expected → r = (respond N₀.state q).2)

theorem eq_of_mod_eq {a b : ℕ} (h : a % M = b % M) (hle : a ≤ b) (hlt : b < a + M) : a = b := by
  have hdvd : M ∣ b - a := (Nat.modEq_iff_dvd' hle).1 h
  have hzero := Nat.eq_zero_of_dvd_of_lt hdvd (by omega)
  omega

variable {M respond} {N₀ N : Net τ Q R} {q : Q}

/-- A new reply may be delivered at once. -/
theorem reply_answer {number : ℕ} {body : ℕ ⊕ R} (hM : 2 ≤ M) :
    (N.answer number body).reply M 0 = some ⟨N.expected, number, body⟩ := by
  have hlive : (N.answer number body).Lives M (⟨N.expected, number, body⟩ : Parcel (ℕ ⊕ R)) := by
    show N.expected < N.expected + (M - 1)
    omega
  exact if_pos hlive

theorem requests_accept (number : ℕ) (x : Q) :
    (N.accept M respond number x).requests = N.requests := by
  unfold accept
  split_ifs
  · rfl
  · cases N.saved <;> rfl
  · rfl

theorem requests_serve (p : Parcel (Option Q)) : (N.serve M respond p).requests = N.requests := by
  unfold serve
  split_ifs
  · cases p.body with
    | none => rfl
    | some x => exact requests_accept _ _
  · rfl

/-- Deliveries take nothing away. -/
theorem requests_deliver (l : List ℕ) : (N.deliver M respond l).requests = N.requests := by
  induction l generalizing N with
  | nil => rfl
  | cons i l ih =>
    unfold deliver
    split
    · exact ih.trans (requests_serve _)
    · exact ih

theorem deliver_append (l l' : List ℕ) :
    N.deliver M respond (l ++ l') = (N.deliver M respond l).deliver M respond l' := by
  induction l generalizing N with
  | nil => rfl
  | cons i l ih =>
    rw [List.cons_append, deliver, deliver]
    split <;> exact ih

/-- Any request may be the next one. -/
theorem Idle.waiting (h : N.Idle M) : N.Waiting M respond N q :=
  ⟨.inl ⟨rfl, rfl, rfl⟩,
    fun p hp x hx => by
      obtain ⟨m, hm, hnumber, hsent⟩ := h.asked p hp x hx
      exact ⟨m, hm.le, hnumber, hsent, fun heq => absurd heq hm.ne⟩,
    fun p hp r hr => by
      obtain ⟨m, hm, hnumber, hsent⟩ := h.answered p hp r hr
      exact ⟨m, hm, hnumber, hsent, fun heq => absurd heq hm.ne⟩⟩

namespace Waiting

theorem expected_le (h : N.Waiting M respond N₀ q) : N₀.expected ≤ N.expected := by
  obtain hsame | htook := h.stage
  · exact hsame.expected.ge
  · exact htook.expected.ge.trans' (Nat.le_succ _)

/-- The request is sent, for the first time or again. -/
theorem ask (h : N.Waiting M respond N₀ q) :
    (N.ask (N₀.expected % M) (some q)).Waiting M respond N₀ q := by
  refine ⟨?_, fun p hp x hx => ?_, h.answered⟩
  · obtain hsame | htook := h.stage
    · exact .inl ⟨hsame.state, hsame.expected, hsame.taken⟩
    · exact .inr ⟨htook.state, htook.expected, htook.taken, htook.saved⟩
  · obtain rfl | hp := List.mem_cons.1 hp
    · refine ⟨N₀.expected, le_rfl, rfl, ?_, fun _ => (Option.some.inj hx).symm⟩
      show N.expected ≤ N₀.expected + 1
      obtain hsame | htook := h.stage
      · exact hsame.expected.le.trans (Nat.le_succ _)
      · exact htook.expected.le
    · exact h.asked p hp x hx

/-- Another reply is on the way. -/
theorem answer {number : ℕ} {body : ℕ ⊕ R} (h : N.Waiting M respond N₀ q)
    (hbody : ∀ r, body = .inr r → ∃ m < N.expected, number = m % M ∧ N.expected = m + 1 ∧
      (m = N₀.expected → r = (respond N₀.state q).2)) :
    (N.answer number body).Waiting M respond N₀ q := by
  refine ⟨?_, h.asked, fun p hp r hr => ?_⟩
  · obtain hsame | htook := h.stage
    · exact .inl ⟨hsame.state, hsame.expected, hsame.taken⟩
    · exact .inr ⟨htook.state, htook.expected, htook.taken, htook.saved⟩
  · obtain rfl | hp := List.mem_cons.1 hp
    · exact hbody r hr
    · exact h.answered p hp r hr

theorem take (h : N.Waiting M respond N₀ q) (hsame : Same N₀ N) :
    (N.take respond q).Waiting M respond N₀ q := by
  refine ⟨.inr ⟨?_, ?_, ?_, ?_⟩, h.asked, fun p hp r hr => ?_⟩
  · show (respond N.state q).1 = _
    rw [hsame.state]
  · show N.expected + 1 = _
    rw [hsame.expected]
  · show N.taken ++ [q] = _
    rw [hsame.taken]
  · show some (respond N.state q).2 = _
    rw [hsame.state]
  · obtain ⟨m, hm, hnumber, hsent, hreply⟩ := h.answered p hp r hr
    exact ⟨m, hm.trans (Nat.lt_succ_self _), hnumber, hsent, hreply⟩

/-- Whatever request arrives, the server takes the one under way once, and no other one. -/
theorem accept {m : ℕ} {x : Q} (hM : 2 ≤ M) (h : N.Waiting M respond N₀ q)
    (hm : m ≤ N₀.expected) (hx : m = N₀.expected → x = q) (hlive : N.expected < m + M) :
    (N.accept M respond (m % M) x).Waiting M respond N₀ q := by
  have hle := h.expected_le
  unfold Net.accept
  rw [Nat.mod_add_mod]
  split_ifs with htake hrepeat
  · obtain hsame | htook := h.stage
    · have heq : m = N₀.expected :=
        (eq_of_mod_eq M htake (hm.trans hle) hlive).trans hsame.expected
      obtain rfl := hx heq
      refine (h.take hsame).answer fun r hr => ?_
      refine ⟨m, ?_, rfl, ?_, fun _ => ?_⟩
      · show m < N.expected + 1
        omega
      · show N.expected + 1 = m + 1
        rw [hsame.expected, heq]
      · rw [← Sum.inr.inj hr, hsame.state]
    · have hlt := htook.expected
      exact absurd (eq_of_mod_eq M htake (by omega) hlive) (by omega)
  · have heq : m + 1 = N.expected := by
      obtain hsame | htook := h.stage
      · have hexpected := hsame.expected
        obtain hlt | heq := hm.lt_or_eq
        · exact eq_of_mod_eq M hrepeat (by omega) (by omega)
        · exact absurd (eq_of_mod_eq M hrepeat.symm (by omega) (by omega)) (by omega)
      · have hexpected := htook.expected
        exact eq_of_mod_eq M hrepeat (by omega) (by omega)
    cases hsaved : N.saved with
    | none => exact h
    | some r =>
      refine h.answer fun r' hr' => ⟨m, by omega, rfl, heq.symm, fun hcurrent => ?_⟩
      obtain hsame | htook := h.stage
      · have := hsame.expected
        omega
      · rw [← Sum.inr.inj hr', ← Option.some.inj (hsaved.symm.trans htook.saved)]
  · exact h

theorem serve {p : Parcel (Option Q)} (hM : 2 ≤ M) (h : N.Waiting M respond N₀ q)
    (hp : p ∈ N.requests) : (N.serve M respond p).Waiting M respond N₀ q := by
  unfold Net.serve
  split_ifs with hlive
  · cases hbody : p.body with
    | none => exact h.answer fun r hr => by cases hr
    | some x =>
      obtain ⟨m, hm, hnumber, hsent, hx⟩ := h.asked p hp x hbody
      unfold Lives at hlive
      dsimp only
      rw [hnumber]
      exact h.accept hM hm hx (by omega)
  · exact h

theorem deliver (hM : 2 ≤ M) (h : N.Waiting M respond N₀ q) (l : List ℕ) :
    (N.deliver M respond l).Waiting M respond N₀ q := by
  induction l generalizing N with
  | nil => exact h
  | cons i l ih =>
    unfold Net.deliver
    split
    · rename_i p hp
      exact ih (h.serve hM (List.mem_of_getElem? hp))
    · exact ih h

/-- A reply with the right number is the reply to the request, and the server has taken it. -/
theorem hear {i number : ℕ} {r : R} {sent : ℕ} (h : N.Waiting M respond N₀ q)
    (hreply : N.reply M i = some ⟨sent, number, .inr r⟩) (hnumber : number = N₀.expected % M) :
    r = (respond N₀.state q).2 ∧ Took respond N₀ q N ∧ N.Idle M := by
  have hle := h.expected_le
  unfold Net.reply at hreply
  split at hreply
  · rename_i p hp
    split_ifs at hreply with hlive
    cases hreply
    obtain ⟨m, hm, hmod, hsent, hr⟩ := h.answered _ (List.mem_of_getElem? hp) r rfl
    dsimp only at hmod hsent
    unfold Lives at hlive
    dsimp only at hlive
    have hmle : m ≤ N₀.expected := by
      obtain hsame | htook := h.stage
      · have := hsame.expected
        omega
      · have := htook.expected
        omega
    have heq : m = N₀.expected :=
      eq_of_mod_eq M (hmod.symm.trans hnumber) hmle (by omega)
    obtain hsame | htook := h.stage
    · have := hsame.expected
      omega
    refine ⟨hr heq, htook, fun p hp x hx => ?_, fun p hp r hr => ?_⟩
    · obtain ⟨m, hm, hmod, hsent, -⟩ := h.asked p hp x hx
      exact ⟨m, by rw [htook.expected]; omega, hmod, hsent⟩
    · obtain ⟨m, hm, hmod, hsent, -⟩ := h.answered p hp r hr
      exact ⟨m, hm, hmod, hsent⟩
  · cases hreply

/-- The reply comes, once the request has been delivered. -/
theorem reply_newest {sent : ℕ} {rest : List (Parcel (Option Q))} (hM : 3 ≤ M)
    (h : N.Waiting M respond N₀ q)
    (hnewest : N.requests = ⟨sent, N₀.expected % M, some q⟩ :: rest) (hsent : N₀.expected ≤ sent) :
    (N.deliver M respond [0]).reply M 0 =
      some ⟨N₀.expected + 1, N₀.expected % M, .inr (respond N₀.state q).2⟩ := by
  have hlive : N.expected < sent + (M - 1) := by
    obtain hsame | htook := h.stage
    · have := hsame.expected
      omega
    · have := htook.expected
      omega
  have hserve : N.deliver M respond [0] = N.accept M respond (N₀.expected % M) q := by
    unfold Net.deliver
    rw [hnewest]
    show N.serve M respond ⟨sent, N₀.expected % M, some q⟩ = _
    exact if_pos hlive
  rw [hserve, Net.accept, Nat.mod_add_mod]
  obtain hsame | htook := h.stage
  · rw [hsame.expected, if_pos rfl, hsame.state, reply_answer (by omega)]
    show some (Parcel.mk (N.expected + 1) _ _) = _
    rw [hsame.expected]
  · have hne : N₀.expected % M ≠ (N₀.expected + 1) % M := fun heq =>
      absurd (eq_of_mod_eq M heq (Nat.le_succ _) (by omega)) (by omega)
    rw [htook.expected, if_neg hne, if_pos rfl, htook.saved]
    dsimp only
    rw [reply_answer (by omega), htook.expected]

end Waiting

/-! ### Asking for the number -/

variable (M) in
/-- The client has asked for the number only. -/
structure Probing (N N₀ : Net τ Q R) : Prop where
  same : Same N₀ N
  asked : ∀ p ∈ N.requests, p.body = none
  answered : ∀ p ∈ N.replies, p.body = .inl (N₀.expected % M)

namespace Probing

theorem idle (h : N.Probing M N₀) : N.Idle M := by
  refine ⟨fun p hp q hq => ?_, fun p hp r hr => ?_⟩
  · rw [h.asked p hp] at hq
    cases hq
  · rw [h.answered p hp] at hr
    cases hr

theorem ask (h : N.Probing M N₀) (number : ℕ) : (N.ask number none).Probing M N₀ := by
  refine ⟨⟨h.same.state, h.same.expected, h.same.taken⟩, fun p hp => ?_, h.answered⟩
  obtain rfl | hp := List.mem_cons.1 hp
  · rfl
  · exact h.asked p hp

theorem serve {p : Parcel (Option Q)} (h : N.Probing M N₀) (hp : p ∈ N.requests) :
    (N.serve M respond p).Probing M N₀ := by
  unfold Net.serve
  rw [h.asked p hp]
  split_ifs with hlive
  · refine ⟨⟨h.same.state, h.same.expected, h.same.taken⟩, h.asked, fun p hp => ?_⟩
    obtain rfl | hp := List.mem_cons.1 hp
    · show (Sum.inl (N.expected % M) : ℕ ⊕ R) = _
      rw [h.same.expected]
    · exact h.answered p hp
  · exact h

theorem deliver (h : N.Probing M N₀) (l : List ℕ) : (N.deliver M respond l).Probing M N₀ := by
  induction l generalizing N with
  | nil => exact h
  | cons i l ih =>
    unfold Net.deliver
    split
    · rename_i p hp
      exact ih (h.serve (List.mem_of_getElem? hp))
    · exact ih h

theorem hear {i : ℕ} {p : Parcel (ℕ ⊕ R)} (h : N.Probing M N₀) (hreply : N.reply M i = some p) :
    p.body = .inl (N₀.expected % M) := by
  unfold Net.reply at hreply
  split at hreply
  · rename_i p' hp
    split_ifs at hreply
    cases hreply
    exact h.answered p (List.mem_of_getElem? hp)
  · cases hreply

end Probing

end Net

end RpiFastbootd
