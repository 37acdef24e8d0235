import ContextServer.Proofs.Server.Admission
import ContextServer.Proofs.Server.Kept
import ContextServer.TokenBucket.Exact
import Mathlib.Data.List.Induction

/-!
What a token bucket admits over time, where its level is kept exactly. Tokens come in at the rate and
go out by admissions, and the capacity is all that can be saved up. So no stretch of time sees more
admissions than the capacity and the rate allow, and a call is denied only when nearly as many were
admitted since the bucket was last full.
-/

namespace ContextServer

/-- A length of time in seconds, exactly. -/
def Span.exactSeconds (d : Span) : Rat := (d : Rat) / 1000000000

theorem Span.exactSeconds_nonneg (d : Span) : 0 ≤ d.exactSeconds := by
  unfold exactSeconds
  positivity

theorem Instant.exactSeconds_since_self (t : Instant) : (t.since t).exactSeconds = 0 := by
  simp [Instant.since, Span.exactSeconds]

theorem Instant.exactSeconds_since_add {s u t : Instant} (hsu : s ≤ u) (hut : u ≤ t) :
    (t.since s).exactSeconds = (t.since u).exactSeconds + (u.since s).exactSeconds := by
  have hspan : t.since s = t.since u + u.since s := (Nat.sub_add_sub_cancel hut hsu).symm
  simp only [hspan, Span.exactSeconds, Nat.cast_add, add_div]

theorem Instant.exactSeconds_since_anti {s u : Instant} (h : s ≤ u) (t : Instant) :
    (t.since u).exactSeconds ≤ (t.since s).exactSeconds := by
  have hspan : t.since u ≤ t.since s := Nat.sub_le_sub_left h t
  unfold Span.exactSeconds
  gcongr

namespace TokenBucket

/-! ### Runs of calls -/

section Runs

variable {α : Type} [LevelArithmetic α]

/-- The bucket after calls at given times. -/
def after (b : TokenBucket α) (calls : List Instant) : TokenBucket α :=
  calls.foldl (fun b now => (b.acquire now).2) b

/-- A call's time, if the call is admitted. -/
def admitted (b : TokenBucket α) (now : Instant) : List Instant :=
  if (b.acquire now).1 then [now] else []

/-- The times of the calls that are admitted, one after another. -/
def admissions (b : TokenBucket α) : List Instant → List Instant
  | [] => []
  | now :: rest => b.admitted now ++ (b.acquire now).2.admissions rest

variable (b : TokenBucket α)

theorem after_append (calls more : List Instant) :
    b.after (calls ++ more) = (b.after calls).after more := List.foldl_append

theorem after_concat (calls : List Instant) (now : Instant) :
    b.after (calls ++ [now]) = ((b.after calls).acquire now).2 := b.after_append calls [now]

theorem admissions_append (calls more : List Instant) :
    b.admissions (calls ++ more) = b.admissions calls ++ (b.after calls).admissions more := by
  induction calls generalizing b with
  | nil => rfl
  | cons now rest ih =>
    rw [List.cons_append, admissions, ih, admissions, List.append_assoc]
    rfl

theorem admissions_concat (calls : List Instant) (now : Instant) :
    b.admissions (calls ++ [now]) = b.admissions calls ++ (b.after calls).admitted now := by
  rw [admissions_append, admissions, admissions, List.append_nil]

theorem admitted_sublist (now : Instant) : (b.admitted now).Sublist [now] := by
  unfold admitted
  split
  · exact List.Sublist.refl _
  · exact List.nil_sublist _

theorem admissions_sublist (calls : List Instant) : (b.admissions calls).Sublist calls := by
  induction calls generalizing b with
  | nil => exact List.Sublist.refl _
  | cons now rest ih => exact (b.admitted_sublist now).append (ih _)

theorem rules_after (calls : List Instant) : b.SameRules (b.after calls) := by
  induction calls using List.reverseRecOn with
  | nil => exact ⟨rfl, rfl, rfl⟩
  | append_singleton calls now ih =>
    rw [after_concat]
    exact ih.trans ((b.after calls).sameRules_acquire now)

variable {b}

theorem refilledAt_acquire (enabled : b.enabled = true) (now : Instant) :
    (b.acquire now).2.refilledAt = now := by
  unfold acquire
  simp only [enabled, Bool.not_true, Bool.false_eq_true, if_false]
  split <;> rfl

/-- The last refill is that of the last call, or the one before the run. -/
theorem refilledAt_after (enabled : b.enabled = true) (calls : List Instant) :
    (b.after calls).refilledAt ∈ b.refilledAt :: calls := by
  induction calls using List.reverseRecOn with
  | nil => exact List.mem_cons_self
  | append_singleton calls now ih =>
    have henabled : (b.after calls).enabled = true := (b.rules_after calls).enabled.trans enabled
    rw [after_concat, refilledAt_acquire henabled]
    exact List.mem_cons_of_mem _ (List.mem_append_right _ List.mem_cons_self)

theorem counts_acquire (enabled : b.enabled = true) (now : Instant) :
    ((b.acquire now).2.allowed, (b.acquire now).2.denied) =
      if (b.acquire now).1 then (b.allowed + 1, b.denied) else (b.allowed, b.denied + 1) := by
  have hcounted := counted_acquire enabled now
  have htotal := hcounted.total
  have hdenied := hcounted.denied
  cases hadmitted : (b.acquire now).1 with
  | true =>
    simp only [hadmitted, if_true, Prod.mk.injEq] at hdenied ⊢
    omega
  | false =>
    simp only [hadmitted, Bool.false_eq_true, if_false, Prod.mk.injEq] at hdenied ⊢
    omega

end Runs

/-! ### One call -/

variable {b : TokenBucket Rat}

/-- A bucket in use: it is on, and its level is one that its capacity allows. -/
structure Steady (b : TokenBucket Rat) : Prop where
  enabled : b.enabled = true
  rate_nonneg : 0 ≤ b.rate
  level_nonneg : 0 ≤ b.level
  level_le : b.level ≤ b.capacity

theorem level_refill (b : TokenBucket Rat) (now : Instant) :
    (b.refill now).level =
      min ((now.since b.refilledAt).exactSeconds * b.rate + b.level) b.capacity := rfl

/-- A call takes a token from the refilled bucket, or finds less than one in it. -/
theorem acquire_cases (enabled : b.enabled = true) (now : Instant) :
    ((b.acquire now).1 = true ∧ 1 ≤ (b.refill now).level ∧
      (b.acquire now).2.level = (b.refill now).level - 1) ∨
    ((b.acquire now).1 = false ∧ (b.refill now).level < 1 ∧
      (b.acquire now).2.level = (b.refill now).level) := by
  unfold acquire
  simp only [enabled, Bool.not_true, Bool.false_eq_true, if_false]
  by_cases htoken : 1 ≤ (b.refill now).level
  · have hspend : LevelArithmetic.spend? (b.refill now).level = some ((b.refill now).level - 1) :=
      if_pos htoken
    rw [hspend]
    exact .inl ⟨rfl, htoken, rfl⟩
  · have hspend : LevelArithmetic.spend? (b.refill now).level = none := if_neg htoken
    rw [hspend]
    exact .inr ⟨rfl, not_le.mp htoken, rfl⟩

/-- What a call admits is what it takes from the level. -/
theorem length_admitted_add_level (enabled : b.enabled = true) (now : Instant) :
    ((b.admitted now).length : Rat) + (b.acquire now).2.level = (b.refill now).level := by
  unfold admitted
  obtain ⟨hadmitted, -, hlevel⟩ | ⟨hdenied, -, hlevel⟩ := acquire_cases enabled now
  · rw [if_pos hadmitted, hlevel, List.length_singleton]
    ring
  · rw [hdenied, hlevel]
    simp

theorem Steady.configure (b : TokenBucket Rat) {rate : Rat} (nonneg : 0 ≤ rate) (capacity : Nat)
    (now : Instant) : (b.configure rate capacity now).Steady where
  enabled := rfl
  rate_nonneg := nonneg.trans (le_max_left rate 0)
  level_nonneg := Nat.cast_nonneg capacity
  level_le := le_refl _

theorem Steady.refill_nonneg (h : b.Steady) (now : Instant) : 0 ≤ (b.refill now).level := by
  have hseconds := (now.since b.refilledAt).exactSeconds_nonneg
  have hrate := h.rate_nonneg
  have hlevel := h.level_nonneg
  rw [level_refill]
  refine le_min ?_ (Nat.cast_nonneg _)
  positivity

theorem Steady.acquire (h : b.Steady) (now : Instant) : (b.acquire now).2.Steady := by
  have hrules := b.sameRules_acquire now
  have hnonneg := h.refill_nonneg now
  have hcapacity : (b.refill now).level ≤ b.capacity := min_le_right _ _
  refine ⟨hrules.enabled.trans h.enabled, hrules.rate ▸ h.rate_nonneg, ?_, ?_⟩
  · obtain ⟨-, htoken, hlevel⟩ | ⟨-, -, hlevel⟩ := acquire_cases h.enabled now
    · rw [hlevel]
      exact sub_nonneg.mpr htoken
    · rw [hlevel]
      exact hnonneg
  · rw [hrules.capacity]
    obtain ⟨-, -, hlevel⟩ | ⟨-, -, hlevel⟩ := acquire_cases h.enabled now <;> linarith

theorem Steady.after (h : b.Steady) (calls : List Instant) : (b.after calls).Steady := by
  induction calls using List.reverseRecOn with
  | nil => exact h
  | append_singleton calls now ih =>
    rw [after_concat]
    exact ih.acquire now

/-! ### No more than comes in -/

/-- What is admitted by a time was in the bucket or has come in since. -/
theorem Steady.countP_admissions_le (h : b.Steady) {calls : List Instant}
    (ordered : (b.refilledAt :: calls).Pairwise (· ≤ ·)) (t : Instant) :
    ((b.admissions calls).countP (· ≤ t) : Rat) ≤
      b.level + b.rate * (t.since b.refilledAt).exactSeconds := by
  have hsupply : 0 ≤ b.rate * (t.since b.refilledAt).exactSeconds :=
    mul_nonneg h.rate_nonneg (Span.exactSeconds_nonneg _)
  induction calls generalizing b with
  | nil =>
    have hlevel := h.level_nonneg
    simp only [admissions, List.countP_nil, Nat.cast_zero]
    linarith
  | cons now rest ih =>
    obtain ⟨hbefore, hrest⟩ := List.pairwise_cons.mp ordered
    have hnow : b.refilledAt ≤ now := hbefore now List.mem_cons_self
    by_cases htime : now ≤ t
    · have hreset : (b.acquire now).2.refilledAt = now := refilledAt_acquire h.enabled now
      have hlater : ((b.acquire now).2.admissions rest).countP (· ≤ t) ≤
          (b.acquire now).2.level + b.rate * (t.since now).exactSeconds := by
        have hmore := ih (h.acquire now)
        rw [hreset, (b.sameRules_acquire now).rate] at hmore
        exact hmore hrest (mul_nonneg h.rate_nonneg (Span.exactSeconds_nonneg _))
      have hcall : ((b.admitted now).countP (· ≤ t) : Rat) ≤ (b.admitted now).length :=
        Nat.cast_le.mpr List.countP_le_length
      have htaken := length_admitted_add_level h.enabled now
      have hfilled : (b.refill now).level ≤
          (now.since b.refilledAt).exactSeconds * b.rate + b.level := min_le_left _ _
      rw [admissions, List.countP_append, Nat.cast_add, Instant.exactSeconds_since_add hnow htime]
      linarith
    · -- the run has passed the time: nothing of it counts
      have hnone : (b.admissions (now :: rest)).countP (· ≤ t) = 0 := by
        refine List.countP_eq_zero.mpr fun u hu => ?_
        have hlater : now ≤ u := by
          rcases List.mem_cons.mp ((b.admissions_sublist _).subset hu) with rfl | hmem
          · exact le_refl u
          · exact (List.pairwise_cons.mp hrest).1 u hmem
        simpa using (not_le.mp htime).trans_le hlater
      rw [hnone, Nat.cast_zero]
      exact add_nonneg h.level_nonneg hsupply

/-- A stretch of time sees no more admissions than its rate and a full bucket allow. -/
theorem Steady.countP_window_le (h : b.Steady) {calls : List Instant}
    (ordered : calls.Pairwise (· ≤ ·)) (s t : Instant) :
    ((b.admissions calls).countP (fun u => s ≤ u ∧ u ≤ t) : Rat) ≤
      b.capacity + b.rate * (t.since s).exactSeconds := by
  have hsupply (u : Instant) : 0 ≤ b.rate * (t.since u).exactSeconds :=
    mul_nonneg h.rate_nonneg (Span.exactSeconds_nonneg _)
  induction calls generalizing b with
  | nil =>
    simp only [admissions, List.countP_nil, Nat.cast_zero]
    exact add_nonneg (Nat.cast_nonneg _) (hsupply s)
  | cons now rest ih =>
    obtain ⟨hfirst, hrest⟩ := List.pairwise_cons.mp ordered
    have hrules := b.sameRules_acquire now
    rw [admissions, List.countP_append, Nat.cast_add]
    by_cases hbegun : s ≤ now
    · have hreset : (b.acquire now).2.refilledAt = now := refilledAt_acquire h.enabled now
      have hlater : (((b.acquire now).2.admissions rest).countP (fun u => s ≤ u ∧ u ≤ t) : Rat) ≤
          (b.acquire now).2.level + b.rate * (t.since now).exactSeconds := by
        have hmore := (h.acquire now).countP_admissions_le (hreset.symm ▸ ordered) t
        rw [hreset, hrules.rate] at hmore
        refine le_trans (Nat.cast_le.mpr (List.countP_mono_left fun u _ hu => ?_)) hmore
        exact decide_eq_true (of_decide_eq_true hu).2
      have hcall : ((b.admitted now).countP (fun u => s ≤ u ∧ u ≤ t) : Rat) ≤
          (b.admitted now).length := Nat.cast_le.mpr List.countP_le_length
      have htaken := length_admitted_add_level h.enabled now
      have hfull : (b.refill now).level ≤ b.capacity := min_le_right _ _
      have hspan : b.rate * (t.since now).exactSeconds ≤ b.rate * (t.since s).exactSeconds :=
        mul_le_mul_of_nonneg_left (Instant.exactSeconds_since_anti hbegun t) h.rate_nonneg
      linarith
    · have hearly : (b.admitted now).countP (fun u => s ≤ u ∧ u ≤ t) = 0 := by
        refine List.countP_eq_zero.mpr fun u hu => ?_
        rw [List.mem_singleton.mp ((b.admitted_sublist now).subset hu)]
        simp [hbegun]
      have hmore := ih (h.acquire now) hrest
      rw [hrules.rate, hrules.capacity] at hmore
      rw [hearly, Nat.cast_zero, zero_add]
      exact hmore hsupply

/-! ### No less than comes in -/

/-- A moment of a run at which the bucket was full: before its first call, or when a call's refill
reached the capacity; with the admissions from that moment on. -/
inductive FullSince (b : TokenBucket Rat) (calls : List Instant) : Instant → List Instant → Prop
  | configured : b.FullSince calls b.refilledAt (b.admissions calls)
  | refilled {earlier later : List Instant} {s : Instant} (split : calls = earlier ++ s :: later)
    (full : ((b.after earlier).refill s).level = b.capacity) :
    b.FullSince calls s ((b.after earlier).admissions (s :: later))

theorem FullSince.concat {calls admitted : List Instant} {s : Instant}
    (h : b.FullSince calls s admitted) (now : Instant) :
    b.FullSince (calls ++ [now]) s (admitted ++ (b.after calls).admitted now) := by
  cases h with
  | configured =>
    rw [← admissions_concat]
    exact .configured
  | @refilled earlier later _ split full =>
    have hmore : calls ++ [now] = earlier ++ s :: (later ++ [now]) := by simp [split]
    rw [split, after_append, ← admissions_concat]
    rw [split] at hmore
    exact .refilled hmore full

/-- Since it was last full, the bucket has taken in at its rate all that it has not given out. -/
theorem level_after (h : b.Steady) (full : b.level = b.capacity) {calls : List Instant}
    (ordered : (b.refilledAt :: calls).Pairwise (· ≤ ·)) :
    ∃ s admitted, b.FullSince calls s admitted ∧ s ≤ (b.after calls).refilledAt ∧
      (b.after calls).level =
        b.capacity + b.rate * ((b.after calls).refilledAt.since s).exactSeconds
          - admitted.length := by
  induction calls using List.reverseRecOn with
  | nil =>
    refine ⟨b.refilledAt, [], .configured, le_refl _, ?_⟩
    simp [after, Instant.exactSeconds_since_self, full]
  | append_singleton calls now ih =>
    rw [← List.cons_append, List.pairwise_append] at ordered
    obtain ⟨hpast, -, hlast⟩ := ordered
    obtain ⟨s, admitted, since, hs, hlevel⟩ := ih hpast
    have hrules := b.rules_after calls
    have henabled : (b.after calls).enabled = true := hrules.enabled.trans h.enabled
    have htaken := length_admitted_add_level henabled now
    have hle : (b.after calls).refilledAt ≤ now :=
      hlast _ (refilledAt_after h.enabled calls) now List.mem_cons_self
    have hrefill := level_refill (b.after calls) now
    rw [hrules.rate, hrules.capacity] at hrefill
    rw [after_concat, refilledAt_acquire henabled]
    by_cases hreached : ((b.after calls).refill now).level = b.capacity
    · -- the refill starts the account anew
      refine ⟨now, (b.after calls).admissions [now], .refilled rfl hreached, le_refl _, ?_⟩
      rw [Instant.exactSeconds_since_self, admissions, admissions, List.append_nil]
      linarith
    · refine ⟨s, admitted ++ (b.after calls).admitted now, since.concat now, hs.trans hle, ?_⟩
      have hfilled : ((b.after calls).refill now).level =
          (now.since (b.after calls).refilledAt).exactSeconds * b.rate + (b.after calls).level :=
        hrefill.trans ((min_choice _ _).resolve_right fun hcap => hreached (hrefill.trans hcap))
      rw [Instant.exactSeconds_since_add hs hle, List.length_append, Nat.cast_add]
      linarith

/-- A bucket that is filled at the start of a run admits in any stretch of time at most what it holds
and what comes in meanwhile, and it denies a call only when more than that less one was admitted since
a moment at which it was full. Its level keeps within the capacity, and every call counts as admitted
or as denied. -/
theorem admissions_meet_supply (old : TokenBucket Rat) {rate : Rat} (nonneg : 0 ≤ rate)
    (burst : Nat) {start : Instant} {calls : List Instant}
    (ordered : (start :: calls).Pairwise (· ≤ ·)) :
    let b := old.configure rate burst start
    (∀ s t : Instant, ((b.admissions calls).countP (fun u => s ≤ u ∧ u ≤ t) : Rat) ≤
      burst + rate * (t.since s).exactSeconds) ∧
    (∀ past t later, calls = past ++ t :: later → ((b.after past).acquire t).1 = false →
      ∃ s admitted, s ≤ t ∧ b.FullSince (past ++ [t]) s admitted ∧
        burst + rate * (t.since s).exactSeconds - 1 < admitted.length) ∧
    (∀ past later, calls = past ++ later →
      0 ≤ (b.after past).level ∧ (b.after past).level ≤ burst) ∧
    (∀ (c : TokenBucket Rat) (now : Instant), c.enabled = true →
      ((c.acquire now).2.allowed, (c.acquire now).2.denied) =
        if (c.acquire now).1 then (c.allowed + 1, c.denied) else (c.allowed, c.denied + 1)) := by
  intro b
  have hb : b.Steady := Steady.configure old nonneg burst start
  have hrate : b.rate = rate := max_eq_left nonneg
  refine ⟨fun s t => ?window, ?denied, ?level, fun c now enabled => counts_acquire enabled now⟩
  case window =>
    rw [← hrate]
    exact hb.countP_window_le (List.pairwise_cons.mp ordered).2 s t
  case denied =>
    rintro past t later rfl hdenied
    have hpast : (b.refilledAt :: (past ++ [t])).Pairwise (· ≤ ·) :=
      ordered.sublist (((List.singleton_sublist.mpr List.mem_cons_self).append_left past).cons_cons start)
    obtain ⟨s, admitted, since, hs, hlevel⟩ := level_after hb rfl hpast
    have henabled : (b.after past).enabled = true := (b.rules_after past).enabled
    rw [after_concat, refilledAt_acquire henabled, hrate] at hlevel
    rw [after_concat, refilledAt_acquire henabled] at hs
    refine ⟨s, admitted, hs, since, ?_⟩
    obtain ⟨hadmitted, -, -⟩ | ⟨-, hshort, hlast⟩ := acquire_cases henabled t
    · cases hadmitted.symm.trans hdenied
    · have hcapacity : (b.capacity : Rat) = burst := rfl
      linarith
  case level =>
    rintro past later rfl
    have hpast := hb.after past
    have hcapacity : (b.after past).capacity = burst := (b.rules_after past).capacity
    exact ⟨hpast.level_nonneg, hcapacity ▸ hpast.level_le⟩

/-- Five calls within half a second. -/
def crowdedCalls : List Instant := [0, 0, 0, 500000000, 500000000]

/-- A bucket of two tokens that gets two a second admits three of them, as many as it can, and when it
denies the third call it has given out all that it held. -/
theorem crowdedCalls_meet_supply :
    let b := (off : TokenBucket Rat).configure 2 2 0
    (0 : Rat) ≤ 2 ∧ (0 :: crowdedCalls).Pairwise (· ≤ ·) ∧
      b.admissions crowdedCalls = [0, 0, 500000000] ∧
      ((b.admissions crowdedCalls).countP (fun u => 0 ≤ u ∧ u ≤ 500000000) : Rat) ≤
        (2 : Nat) + 2 * (Instant.since 500000000 0).exactSeconds ∧
      ((b.after [0, 0]).acquire 0).1 = false ∧
      (∃ s admitted, s ≤ 0 ∧ b.FullSince ([0, 0] ++ [0]) s admitted ∧
        (2 : Nat) + 2 * (Instant.since 0 s).exactSeconds - 1 < admitted.length) ∧
      0 ≤ (b.after crowdedCalls).level := by
  intro b
  have ordered : (0 :: crowdedCalls).Pairwise (· ≤ ·) := by decide
  have hadmissions : b.admissions crowdedCalls = [0, 0, 500000000] := by decide +kernel
  have hdenied : ((b.after [0, 0]).acquire 0).1 = false := by decide +kernel
  obtain ⟨hwindow, hshort, hlevel, -⟩ := admissions_meet_supply off (by decide : (0 : Rat) ≤ 2) 2 ordered
  exact ⟨by decide, ordered, hadmissions, hwindow 0 500000000, hdenied,
    hshort [0, 0] 0 [500000000, 500000000] rfl hdenied,
    (hlevel crowdedCalls [] (List.append_nil _).symm).1⟩

end TokenBucket

end ContextServer
