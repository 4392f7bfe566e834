import Mathlib.Logic.Function.Basic
import Mathlib.Tactic.Common

/-!
# Deliveries made later

Threads gather packets for connections under a lock and deliver them once it is released. A
connection is a queue: what is delivered first comes first. One thread delivers in the order in
which it gathered; different threads in any order.
-/

namespace Lib

open Function List

variable {μ τ ω : Type}

/-- A delivery that a thread has still to make. -/
structure Delivery (μ : Type) where
  thread : Nat
  session : Nat
  packet : μ

/-- What each connection got, in order, and what is to be delivered, as gathered. -/
structure Wire (μ : Type) where
  queue : Nat → List μ := fun _ => []
  pending : List (Delivery μ) := []
  threads : Nat := 0

/-- The packets for one connection. -/
def packetsTo (s : Nat) (out : List (Nat × μ)) : List μ :=
  out.filterMap fun (s', p) => if s' = s then some p else none

theorem mem_packetsTo {s : Nat} {out : List (Nat × μ)} {p : μ} :
    p ∈ packetsTo s out ↔ (s, p) ∈ out := by
  unfold packetsTo
  rw [mem_filterMap]
  constructor
  · rintro ⟨⟨s', p'⟩, hmem, hp⟩
    obtain ⟨rfl, rfl⟩ : s' = s ∧ p' = p := by simpa using hp
    exact hmem
  · exact fun hmem => ⟨_, hmem, if_pos rfl⟩

namespace Wire

variable (w : Wire μ)

/-- A thread has these deliveries to make. -/
def send (out : List (Nat × μ)) : Wire μ :=
  { w with
    pending := w.pending ++ out.map fun (session, packet) => { thread := w.threads, session, packet }
    threads := w.threads + 1 }

/-- A delivery that is made under the lock. -/
def post (s : Nat) (ps : List μ) : Wire μ :=
  { w with queue := update w.queue s (w.queue s ++ ps) }

/-- The thread of a delivery has made the ones before it. -/
def isNext (k : Nat) (d : Delivery μ) : Bool :=
  (w.pending.take k).all fun d' => d'.thread ≠ d.thread

/-- One pending delivery is made, if it is its turn in its thread. -/
def deliver (k : Nat) : Wire μ :=
  match w.pending[k]? with
  | some d =>
    if w.isNext k d then
      { w.post d.session [d.packet] with pending := w.pending.eraseIdx k }
    else w
  | none => w

/-- What threads from `n` on are still to deliver to a connection. -/
def late (s n : Nat) : List μ :=
  (w.pending.filter fun d => d.session = s ∧ n ≤ d.thread).map (·.packet)

/-- What a connection will have got. -/
def coming (s : Nat) : List μ :=
  w.queue s ++ (w.pending.filter fun d => d.session = s).map (·.packet)

end Wire

/-- What packets are about, and what is told by them. -/
structure Telling (μ τ ω : Type) where
  about : μ → τ → Prop
  tell : τ → ω → μ → ω
  /-- A packet about other things tells nothing. -/
  skip : ∀ p x t, ¬ about p x → tell x t p = t

namespace Telling

variable (T : Telling μ τ ω)

/-- What is told by some packets. -/
def tells (x : τ) (t : ω) (ps : List μ) : ω := ps.foldl (T.tell x) t

variable {T} {x : τ} {t : ω} {p : μ} {ps ps' : List μ}

@[simp] theorem tells_nil : T.tells x t [] = t := rfl

@[simp] theorem tells_cons : T.tells x t (p :: ps) = T.tells x (T.tell x t p) ps := rfl

@[simp] theorem tells_append : T.tells x t (ps ++ ps') = T.tells x (T.tells x t ps) ps' :=
  foldl_append

theorem tells_of_skip (h : ∀ p ∈ ps, ¬ T.about p x) : T.tells x t ps = t := by
  induction ps generalizing t with
  | nil => rfl
  | cons p ps ih =>
    obtain ⟨hp, hps⟩ := forall_mem_cons.1 h
    rw [tells_cons, T.skip p x t hp, ih hps]

/-- The packets about a subject are one, possibly repeated. -/
theorem tells_of_same (hidem : ∀ t, T.tell x (T.tell x t p) p = T.tell x t p)
    (hsame : ∀ q ∈ ps, T.about q x → q = p) (hp : p ∈ ps) : T.tells x t ps = T.tell x t p := by
  have hstays : ∀ qs t, (∀ q ∈ qs, T.about q x → q = p) → T.tell x t p = t →
      T.tells x t qs = t := by
    intro qs
    induction qs with
    | nil => exact fun _ _ _ => rfl
    | cons q qs ih =>
      intro t hqs ht
      obtain ⟨hq, hqs⟩ := forall_mem_cons.1 hqs
      have hsame : T.tell x t q = t := by
        by_cases habout : T.about q x
        · rw [hq habout, ht]
        · exact T.skip q x t habout
      rw [tells_cons, hsame]
      exact ih t hqs ht
  induction ps generalizing t with
  | nil => exact nomatch hp
  | cons q qs ih =>
    obtain ⟨hq, hqs⟩ := forall_mem_cons.1 hsame
    rw [tells_cons]
    by_cases habout : T.about q x
    · rw [hq habout]
      exact hstays qs _ hqs (hidem t)
    · rw [T.skip q x t habout]
      rcases mem_cons.1 hp with rfl | hp
      · -- The packet tells nothing about the subject, nor does any other.
        rw [T.skip p x t habout]
        exact hstays qs t hqs (T.skip p x t habout)
      · exact ih hqs hp

end Telling

namespace Wire

variable (T : Telling μ τ ω) (t₀ : ω)

/-- What a connection is told once all that is pending is delivered. -/
def told (w : Wire μ) (s : Nat) (x : τ) : ω := T.tells x t₀ (w.coming s)

/-- The threads that have something to deliver have begun. -/
def Started (w : Wire μ) : Prop := ∀ d ∈ w.pending, d.thread < w.threads

/-- Nothing is pending for a connection about a subject from threads before `n`. -/
def Clear (w : Wire μ) (s n : Nat) (x : τ) : Prop :=
  ∀ d ∈ w.pending, d.session = s → T.about d.packet x → n ≤ d.thread

/-- Nothing gathered before is for the same connection and subject. -/
def InOrder (w : Wire μ) (k : Nat) : Prop :=
  ∀ d, w.pending[k]? = some d → ∀ d' ∈ w.pending.take k, d'.session = d.session →
    ∀ x, T.about d.packet x → ¬ T.about d'.packet x

variable {T t₀} {w : Wire μ} {s s' k : Nat} {x : τ} {out : List (Nat × μ)} {ps : List μ}

/-- What a thread delivers to a connection is what it gathered for it. -/
theorem map_filter_sent {n : Nat} (hn : n ≤ w.threads) :
    ((out.map fun (session, packet) =>
      ({ thread := w.threads, session, packet } : Delivery μ)).filter
        fun d => d.session = s ∧ n ≤ d.thread).map (·.packet) = packetsTo s out := by
  induction out with
  | nil => rfl
  | cons o out ih =>
    unfold packetsTo at ih ⊢
    by_cases heq : o.1 = s
    · simpa [heq, hn] using ih
    · simpa [heq, hn] using ih

theorem late_send {n : Nat} (hn : n ≤ w.threads) :
    (w.send out).late s n = w.late s n ++ packetsTo s out := by
  change ((w.pending ++ out.map _).filter _).map _ = _
  rw [filter_append, map_append, map_filter_sent hn]
  rfl

theorem late_threads (h : w.Started) : w.late s w.threads = [] := by
  unfold late
  rw [filter_eq_nil_iff.2, map_nil]
  intro d hd hlate
  exact Nat.not_le_of_lt (h d hd) (of_decide_eq_true hlate).2

theorem Started.post (h : w.Started) : (w.post s ps).Started := h

theorem Started.send (h : w.Started) : (w.send out).Started := by
  intro d hd
  rcases mem_append.1 hd with hd | hd
  · exact Nat.lt_succ_of_lt (h d hd)
  · obtain ⟨_, _, rfl⟩ := mem_map.1 hd
    exact Nat.lt_succ_self _

theorem Started.deliver (h : w.Started) : (w.deliver k).Started := by
  unfold Wire.deliver
  split
  · split
    · exact fun d hd => h d (mem_of_mem_eraseIdx hd)
    · exact h
  · exact h

theorem threads_deliver : (w.deliver k).threads = w.threads := by
  unfold deliver
  split
  · split <;> rfl
  · rfl

theorem coming_eq : w.coming s = w.queue s ++ w.late s 0 := by
  unfold coming late
  simp

theorem coming_send : (w.send out).coming s = w.coming s ++ packetsTo s out := by
  rw [coming_eq, coming_eq, late_send (Nat.zero_le _), ← append_assoc]
  rfl

theorem told_send : (w.send out).told T t₀ s x = T.tells x (w.told T t₀ s x) (packetsTo s out) := by
  rw [told, coming_send, Telling.tells_append]
  rfl

theorem told_post_of_ne (hne : s' ≠ s) : (w.post s ps).told T t₀ s' x = w.told T t₀ s' x := by
  unfold told coming post
  dsimp only
  rw [update_of_ne hne]

/-- Packets of which some are not about a subject. -/
theorem tells_filter {δ : Type} {f : δ → μ} {q : δ → Bool} {ds : List δ} {t : ω}
    (h : ∀ d ∈ ds, T.about (f d) x → q d) :
    T.tells x t ((ds.filter q).map f) = T.tells x t (ds.map f) := by
  induction ds generalizing t with
  | nil => rfl
  | cons d ds ih =>
    obtain ⟨hd, hds⟩ := forall_mem_cons.1 h
    by_cases hq : q d
    · rw [filter_cons_of_pos hq, map_cons, map_cons, Telling.tells_cons,
        Telling.tells_cons, ih hds]
    · rw [filter_cons_of_neg hq, map_cons, Telling.tells_cons, ih hds,
        T.skip _ _ _ fun habout => hq (hd habout)]

/-- What is pending comes after packets that are posted. -/
theorem told_post {n : Nat} (hclear : w.Clear T s n x) :
    (w.post s ps).told T t₀ s x =
      T.tells x (T.tells x (T.tells x t₀ (w.queue s)) ps) (w.late s n) := by
  have hlate : ∀ t, T.tells x t (w.late s n) =
      T.tells x t ((w.pending.filter fun d => d.session = s).map (·.packet)) := by
    intro t
    unfold late
    have hfilter : (w.pending.filter fun d => d.session = s ∧ n ≤ d.thread) =
        (w.pending.filter fun d => d.session = s).filter fun d => n ≤ d.thread := by
      rw [filter_filter]
      simp [Bool.and_comm]
    rw [hfilter]
    refine tells_filter fun d hd habout => ?_
    obtain ⟨hmem, hs⟩ := mem_filter.1 hd
    exact decide_eq_true (hclear d hmem (of_decide_eq_true hs) habout)
  rw [hlate]
  unfold told coming post
  dsimp only
  rw [update_self]
  simp only [Telling.tells_append]

theorem told_post_of_same (hps : ∀ t, T.tells x t ps = t) :
    (w.post s ps).told T t₀ s' x = w.told T t₀ s' x := by
  by_cases heq : s' = s
  · subst heq
    unfold told coming post
    dsimp only
    rw [update_self]
    simp only [Telling.tells_append, hps]
  · exact told_post_of_ne heq

/-- A packet may be told before others of other subjects. -/
theorem tells_swap {p : μ} {t : ω} (h : T.about p x → ∀ q ∈ ps, ¬ T.about q x) :
    T.tells x (T.tell x t p) ps = T.tell x (T.tells x t ps) p := by
  by_cases habout : T.about p x
  · rw [Telling.tells_of_skip (h habout), Telling.tells_of_skip (h habout)]
  · rw [T.skip p x t habout, T.skip p x _ habout]

/-- A packet delivered in order may come before the others pending. -/
theorem deliver_cases (horder : w.InOrder T k) (s : Nat) :
    ((w.deliver k).queue s = w.queue s ∧ ∀ n, (w.deliver k).late s n = w.late s n) ∨
      ∃ d : Delivery μ, (w.deliver k).queue s = w.queue s ++ [d.packet] ∧
        ∀ n x t, T.tells x t (w.late s n) =
          T.tells x (if n ≤ d.thread then T.tell x t d.packet else t) ((w.deliver k).late s n) := by
  unfold deliver
  split
  · next d hd =>
    split
    · have hlt := (List.getElem?_eq_some_iff.1 hd).1
      have hpending : w.pending = w.pending.take k ++ d :: w.pending.drop (k + 1) := by
        rw [← (List.getElem?_eq_some_iff.1 hd).2, ← drop_eq_getElem_cons hlt,
          take_append_drop]
      unfold late post
      dsimp only
      rw [eraseIdx_eq_take_drop_succ]
      by_cases heq : d.session = s
      · subst heq
        refine .inr ⟨d, update_self .., fun n x t => ?_⟩
        conv_lhs => rw [hpending]
        rw [filter_append, map_append, filter_append, map_append,
          filter_cons]
        -- Of the deliveries before, those for this connection are about other subjects.
        have hswap : T.about d.packet x → ∀ q ∈ ((w.pending.take k).filter
            fun d' => d'.session = d.session ∧ n ≤ d'.thread).map (·.packet), ¬ T.about q x := by
          intro habout q hq
          obtain ⟨d', hd', rfl⟩ := mem_map.1 hq
          obtain ⟨hmem, hsession⟩ := mem_filter.1 hd'
          exact horder d hd d' hmem (of_decide_eq_true hsession).1 x habout
        by_cases hn : n ≤ d.thread
        · rw [if_pos (decide_eq_true ⟨rfl, hn⟩), if_pos hn, map_cons]
          simp only [Telling.tells_append, Telling.tells_cons]
          rw [tells_swap hswap]
        · rw [if_neg (by simpa using Nat.lt_of_not_le hn), if_neg hn, Telling.tells_append]
      · refine .inl ⟨update_of_ne (Ne.symm heq) .., fun n => ?_⟩
        conv_rhs => rw [hpending]
        rw [filter_append, filter_append, filter_cons_of_neg (by simp [heq])]
    · exact .inl ⟨rfl, fun _ => rfl⟩
  · exact .inl ⟨rfl, fun _ => rfl⟩

/-- It changes nothing of what will have been told. -/
theorem told_deliver (horder : w.InOrder T k) :
    (w.deliver k).told T t₀ s x = w.told T t₀ s x := by
  rw [told, told, coming_eq, coming_eq]
  rcases deliver_cases horder s with ⟨hqueue, hlate⟩ | ⟨d, hqueue, hlate⟩
  · rw [hqueue, hlate]
  · rw [hqueue, Telling.tells_append, Telling.tells_append, Telling.tells_append, hlate,
      if_pos (Nat.zero_le _)]
    rfl

/-- When nothing is pending, everything is told. -/
theorem told_quiet (hquiet : w.pending = []) : w.told T t₀ s x = T.tells x t₀ (w.queue s) := by
  rw [told, coming, hquiet, filter_nil, map_nil, append_nil]

end Wire

end Lib
