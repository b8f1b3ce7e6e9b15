import ScrabbleMagyar.Foundations.Runs
import ScrabbleMagyar.Foundations.Tables
import ScrabbleMagyar.Foundations.Window
import Mathlib.Algebra.Order.Field.Rat

/-!
# The rate limiter

Requests by connection and by address are limited (`services/ratelimit.rs`): for every action at
most so many in a window of seconds. The stamps of the accepted calls are kept by key and action;
they are trimmed when the action is asked for again, and when the table of addresses has grown,
whole addresses without a recent stamp are dropped.

* `RateLimiter.checkSocket`, `checkIp`, `clearSid`, `clearIp`: the limiter.
* `answer_iff`: for fixed limits its answers are those of an exact sliding window over the log of
  all calls, whatever the dropping of addresses does.

The clock is a rational number here. The views of the administrator are left out.
-/

namespace ScrabbleMagyar

/-- At most so many calls in so many seconds. -/
abbrev Limit := ℕ × ℕ

/-- The stamps of the accepted calls by key and action, oldest first. -/
abbrev History := Table String (Table String (List ℚ))

namespace History

/-- The stamps of an action of a key. -/
def stamps (h : History) (key action : String) : List ℚ :=
  ((h.lookup key).bind fun actions => actions.lookup action).getD []

/-- Put stamps in the place of those of an action of a key. -/
def setStamps (h : History) (key action : String) (stamps : List ℚ) : History :=
  h.insert key (((h.lookup key).getD ∅).insert action stamps)

/-- Ask for an action: it is counted if the window has room for it. -/
def ask (h : History) (limit : Limit) (now : ℚ) (key action : String) : History × Bool :=
  let stamps := Window.trim now limit.2 (h.stamps key action)
  if stamps.length ≥ limit.1 then (h.setStamps key action stamps, false)
  else (h.setStamps key action (stamps ++ [now]), true)

/-- Drop the keys that have no stamp as recent as the longest window. -/
def prune (h : History) (now longest : ℚ) : History :=
  h.retain fun _ actions => actions.entries.any fun e => e.2.any fun t => decide (now - t < longest)

theorem stamps_setStamps (h : History) (key action key' action' : String) (stamps : List ℚ) :
    (h.setStamps key action stamps).stamps key' action' =
      if key' = key ∧ action' = action then stamps else h.stamps key' action' := by
  simp only [History.stamps, setStamps, Table.lookup_insert]
  by_cases hkey : key' = key
  · subst hkey
    rw [if_pos rfl, Option.bind_some, Table.lookup_insert]
    by_cases haction : action' = action
    · rw [if_pos haction, if_pos ⟨rfl, haction⟩, Option.getD_some]
    · rw [if_neg haction, if_neg fun hboth => haction hboth.2]
      cases h.lookup key' with
      | none => rfl
      | some actions => rfl
  · rw [if_neg hkey, if_neg fun hboth => hkey hboth.1]

/-- What is left in the window, with a call that is allowed. -/
theorem stamps_ask (h : History) (limit : Limit) (now : ℚ) (key action key' action' : String) :
    (h.ask limit now key action).1.stamps key' action' =
      if key' = key ∧ action' = action then
        Window.trim now limit.2 (h.stamps key action) ++
          if (h.ask limit now key action).2 = true then [now] else []
      else h.stamps key' action' := by
  unfold ask
  dsimp only
  split
  · simp [stamps_setStamps]
  · simp [stamps_setStamps]

theorem allowed_ask (h : History) (limit : Limit) (now : ℚ) (key action : String) :
    (h.ask limit now key action).2 = true ↔
      (Window.trim now (limit.2 : ℚ) (h.stamps key action)).length < limit.1 := by
  unfold ask
  dsimp only
  split
  · rename_i hfull
    simpa using hfull
  · rename_i hroom
    simpa using hroom

theorem stamps_erase (h : History) (key key' action : String) :
    History.stamps (h.erase key) key' action =
      if key' = key then [] else h.stamps key' action := by
  simp only [History.stamps, Table.lookup_erase]
  split <;> rfl

/-- Of a key that is dropped all stamps are stale. -/
theorem stamps_prune (h : History) (now longest : ℚ) (key action : String) :
    (h.prune now longest).stamps key action = h.stamps key action ∨
      (h.prune now longest).stamps key action = [] ∧
        ∀ t ∈ h.stamps key action, longest ≤ now - t := by
  simp only [History.stamps, prune, Table.lookup_retain]
  cases hkey : h.lookup key with
  | none => exact .inl rfl
  | some actions =>
    by_cases hrecent : (actions.entries.any fun e => e.2.any fun t =>
        decide (now - t < longest)) = true
    · exact .inl (by simp [Option.filter, hrecent])
    · refine .inr ⟨by simp [Option.filter, hrecent], fun t ht => ?_⟩
      cases haction : actions.lookup action with
      | none => simp [haction] at ht
      | some stamps =>
        have hmem := AList.mem_lookup_iff.mp (Option.mem_def.mpr haction)
        by_contra hlt
        refine hrecent (List.any_eq_true.mpr ⟨_, hmem, List.any_eq_true.mpr ⟨t, ?_, ?_⟩⟩)
        · simpa [haction] using ht
        · simpa using hlt

end History

/-- With more addresses than these, those that are quiet are dropped. -/
def ipPruneThreshold : ℕ := 1000

/-- The limits by action and the accepted calls, of connections and of addresses. -/
structure RateLimiter where
  socketLimits : Table String Limit
  ipLimits : Table String Limit
  socketHistory : History
  ipHistory : History
  /-- Limits that an administrator has put in place of the others. -/
  socketOverrides : Table String Limit
  ipOverrides : Table String Limit

namespace RateLimiter

/-- A limiter that has seen no call. -/
def new (socketLimits ipLimits : Table String Limit) : RateLimiter :=
  { socketLimits, ipLimits, socketHistory := ∅, ipHistory := ∅, socketOverrides := ∅,
    ipOverrides := ∅ }

variable (r : RateLimiter)

/-- An administrator puts limits in place of the others. -/
def setOverrides (ip socket : Table String Limit) : RateLimiter :=
  { r with ipOverrides := ip, socketOverrides := socket }

/-- The limit of an action for an address. -/
def ipLimit (action : String) : Option Limit :=
  (r.ipOverrides.lookup action).or (r.ipLimits.lookup action)

/-- The limit of an event for a connection. -/
def socketLimit (event : String) : Option Limit :=
  (r.socketOverrides.lookup event).or (r.socketLimits.lookup event)

/-- The longest window of all limits for addresses. -/
def longestWindow : ℕ :=
  ((r.ipLimits.entries ++ r.ipOverrides.entries).map fun e => e.2.2).max?.getD 0

/-- Drop addresses that have not been heard of lately. -/
def pruneIps (now : ℚ) : RateLimiter :=
  { r with ipHistory := r.ipHistory.prune now r.longestWindow }

/-- A request of a connection; the answer is whether it is allowed. -/
def checkSocket (now : ℚ) (sid event : String) : RateLimiter × Bool :=
  match r.socketLimit event with
  | none => (r, true)
  | some limit =>
    let (socketHistory, allowed) := r.socketHistory.ask limit now sid event
    ({ r with socketHistory }, allowed)

/-- A request from an address; the answer is whether it is allowed. -/
def checkIp (now : ℚ) (ip action : String) : RateLimiter × Bool :=
  match r.ipLimit action with
  | none => (r, true)
  | some limit =>
    let r := if r.ipHistory.entries.length > ipPruneThreshold then r.pruneIps now else r
    let (ipHistory, allowed) := r.ipHistory.ask limit now ip action
    ({ r with ipHistory }, allowed)

/-- Lift the limits of an address; the answer is whether there was anything to forget. -/
def clearIp (ip : String) : RateLimiter × Bool :=
  ({ r with ipHistory := r.ipHistory.erase ip }, (r.ipHistory.lookup ip).isSome)

/-- A connection has broken. -/
def clearSid (sid : String) : RateLimiter :=
  { r with socketHistory := r.socketHistory.erase sid }

/-! ## Calls and their log -/

/-- Whose calls are counted together. -/
inductive Key
  | socket (sid : String)
  | ip (address : String)
  deriving DecidableEq

/-- What the limiter is asked: whether a call is allowed, or to forget a key. -/
inductive Call
  | check (key : Key) (action : String)
  | clear (key : Key)
  deriving DecidableEq

/-- The limit of an action for a key. -/
def limitOf (key : Key) (action : String) : Option Limit :=
  match key with
  | .socket _ => r.socketLimit action
  | .ip _ => r.ipLimit action

/-- The accepted calls of an action of a key. -/
def stampsOf (key : Key) (action : String) : List ℚ :=
  match key with
  | .socket sid => r.socketHistory.stamps sid action
  | .ip address => r.ipHistory.stamps address action

/-- A call at a time, and whether it is allowed; a clearing always is. -/
def call (now : ℚ) : Call → RateLimiter × Bool
  | .check (.socket sid) event => r.checkSocket now sid event
  | .check (.ip address) action => r.checkIp now address action
  | .clear (.socket sid) => (r.clearSid sid, true)
  | .clear (.ip address) => ((r.clearIp address).1, true)

/-- The limiter after a call. -/
def step (i : ℚ × Call) : RateLimiter := (r.call i.1 i.2).1

/-- What the limiter answers a call. -/
def answer (i : ℚ × Call) : Bool := (r.call i.1 i.2).2

/-- A call that has been answered. -/
structure Entry where
  time : ℚ
  call : Call
  answer : Bool

/-- The calls of a run with their answers. -/
def log (r : RateLimiter) : List (ℚ × Call) → List Entry
  | [] => []
  | i :: l => ⟨i.1, i.2, r.answer i⟩ :: log (r.step i) l

/-- The entries since a key was cleared last. -/
def sinceCleared (key : Key) (log : List Entry) : List Entry :=
  (log.reverse.takeWhile fun e => e.call ≠ .clear key).reverse

/-- The times at which an action of a key was allowed, since the key was cleared last. -/
def allowedTimes (log : List Entry) (key : Key) (action : String) : List ℚ :=
  ((sinceCleared key log).filter fun e => e.call = .check key action ∧ e.answer = true).map
    Entry.time

theorem allowedTimes_append (log : List Entry) (e : Entry) (key : Key) (action : String) :
    allowedTimes (log ++ [e]) key action =
      if e.call = .clear key then []
      else allowedTimes log key action ++
        if e.call = .check key action ∧ e.answer = true then [e.time] else [] := by
  unfold allowedTimes sinceCleared
  rw [List.reverse_append, List.reverse_singleton, List.singleton_append]
  by_cases hclear : e.call = .clear key
  · rw [List.takeWhile_cons_of_neg (by simpa using hclear), if_pos hclear]
    rfl
  · rw [List.takeWhile_cons_of_pos (by simpa using hclear), if_neg hclear, List.reverse_cons,
      List.filter_append, List.map_append]
    by_cases hallowed : e.call = .check key action ∧ e.answer = true
    · rw [if_pos hallowed, List.filter_cons_of_pos (by simpa using hallowed)]
      rfl
    · rw [if_neg hallowed, List.filter_cons_of_neg (by simpa using hallowed)]
      rfl

/-! ## The exact window -/

/-- The same limits are in force. -/
structure SameLimits (r r' : RateLimiter) : Prop where
  socketLimits : r'.socketLimits = r.socketLimits
  ipLimits : r'.ipLimits = r.ipLimits
  socketOverrides : r'.socketOverrides = r.socketOverrides
  ipOverrides : r'.ipOverrides = r.ipOverrides

/-- A limiter keeps the allowed times `H` as far as they lie in the windows of their actions. -/
structure Tracks (r : RateLimiter) (now : ℚ) (H : Key → String → List ℚ) : Prop where
  sorted : ∀ key action, (r.stampsOf key action).Pairwise (· ≤ ·)
  past : ∀ key action, ∀ t ∈ r.stampsOf key action, t ≤ now
  same : ∀ key action limit, r.limitOf key action = some limit →
    Window.within now limit.2 (r.stampsOf key action) = Window.within now limit.2 (H key action)

variable {r} {r' : RateLimiter} {now now' : ℚ} {H : Key → String → List ℚ} {key : Key}
  {action : String} {limit : Limit}

theorem SameLimits.refl (r : RateLimiter) : SameLimits r r := ⟨rfl, rfl, rfl, rfl⟩

theorem SameLimits.trans {r₁ r₂ r₃ : RateLimiter} (h : SameLimits r₁ r₂) (h' : SameLimits r₂ r₃) :
    SameLimits r₁ r₃ where
  socketLimits := h'.socketLimits.trans h.socketLimits
  ipLimits := h'.ipLimits.trans h.ipLimits
  socketOverrides := h'.socketOverrides.trans h.socketOverrides
  ipOverrides := h'.ipOverrides.trans h.ipOverrides

theorem SameLimits.limitOf (h : SameLimits r r') (key : Key) (action : String) :
    r'.limitOf key action = r.limitOf key action := by
  cases key with
  | socket sid =>
    simp only [RateLimiter.limitOf, socketLimit, h.socketLimits, h.socketOverrides]
  | ip address => simp only [RateLimiter.limitOf, ipLimit, h.ipLimits, h.ipOverrides]

theorem Tracks.later (h : Tracks r now H) (hnow : now ≤ now') : Tracks r now' H where
  sorted := h.sorted
  past := fun key action t ht => (h.past key action t ht).trans hnow
  same := fun key action limit hlimit =>
    Window.within_congr (h.same key action limit hlimit) hnow le_rfl

/-- No window for addresses is longer than the longest one. -/
theorem window_le_longest {address : String} (h : r.limitOf (.ip address) action = some limit) :
    limit.2 ≤ r.longestWindow := by
  have hmem : limit.2 ∈ (r.ipLimits.entries ++ r.ipOverrides.entries).map fun e => e.2.2 := by
    refine List.mem_map.mpr ⟨⟨action, limit⟩, List.mem_append.mpr ?_, rfl⟩
    rcases Option.or_eq_some_iff.mp h with h | ⟨-, h⟩
    · exact .inr (AList.mem_lookup_iff.mp (Option.mem_def.mpr h))
    · exact .inl (AList.mem_lookup_iff.mp (Option.mem_def.mpr h))
  unfold longestWindow
  cases hmax : ((r.ipLimits.entries ++ r.ipOverrides.entries).map fun e => e.2.2).max? with
  | none =>
    rw [List.max?_eq_none_iff.mp hmax] at hmem
    cases hmem
  | some longest => exact (List.max?_eq_some_iff.mp hmax).2 _ hmem

/-- **Dropping addresses** loses no stamp that still counts. -/
theorem Tracks.prune (h : Tracks r now H) : Tracks (r.pruneIps now) now H := by
  have hcases : ∀ key action, (r.pruneIps now).stampsOf key action = r.stampsOf key action ∨
      (r.pruneIps now).stampsOf key action = [] ∧ ∀ limit, r.limitOf key action = some limit →
        Window.within now (limit.2 : ℚ) (r.stampsOf key action) = [] := by
    intro key action
    cases key with
    | socket sid => exact .inl rfl
    | ip address =>
      rcases r.ipHistory.stamps_prune now r.longestWindow address action with heq | ⟨hnil, hstale⟩
      · exact .inl heq
      · refine .inr ⟨hnil, fun limit hlimit => Window.within_eq_nil fun t ht => ?_⟩
        have hle : (limit.2 : ℚ) ≤ r.longestWindow := by exact_mod_cast window_le_longest hlimit
        exact hle.trans (hstale t ht)
  refine ⟨fun key action => ?_, fun key action t ht => ?_, fun key action limit hlimit => ?_⟩
  · rcases hcases key action with heq | ⟨hnil, -⟩
    · exact heq ▸ h.sorted key action
    · exact hnil ▸ .nil
  · rcases hcases key action with heq | ⟨hnil, -⟩
    · exact h.past key action t (heq ▸ ht)
    · rw [hnil] at ht
      cases ht
  · have hlimit : r.limitOf key action = some limit := by
      cases key <;> exact hlimit
    rw [← h.same key action limit hlimit]
    rcases hcases key action with heq | ⟨hnil, hout⟩
    · rw [heq]
    · rw [hnil, hout limit hlimit, Window.within_nil]

/-- The stamps of one action of one key have been counted on. -/
structure Counts (r : RateLimiter) (now : ℚ) (key : Key) (action : String) (limit : Limit)
    (r' : RateLimiter) (allowed : Bool) : Prop where
  limits : SameLimits r r'
  allowed_iff : allowed = true ↔
    (Window.trim now (limit.2 : ℚ) (r.stampsOf key action)).length < limit.1
  stamps : ∀ key' action', r'.stampsOf key' action' =
    if key' = key ∧ action' = action then
      Window.trim now limit.2 (r.stampsOf key action) ++ if allowed = true then [now] else []
    else r.stampsOf key' action'

theorem counts_checkSocket {sid event : String} (h : r.socketLimit event = some limit) :
    Counts r now (.socket sid) event limit (r.checkSocket now sid event).1
      (r.checkSocket now sid event).2 := by
  unfold checkSocket
  simp only [h]
  refine ⟨⟨rfl, rfl, rfl, rfl⟩, r.socketHistory.allowed_ask limit now sid event,
    fun key' action' => ?_⟩
  cases key' with
  | ip address => exact (if_neg fun heq => nomatch heq.1).symm
  | socket sid' =>
    refine (History.stamps_ask ..).trans ?_
    simp only [Key.socket.injEq]
    rfl

theorem counts_askIp {address : String} :
    Counts r now (.ip address) action limit
      { r with ipHistory := (r.ipHistory.ask limit now address action).1 }
      (r.ipHistory.ask limit now address action).2 := by
  refine ⟨⟨rfl, rfl, rfl, rfl⟩, r.ipHistory.allowed_ask limit now address action,
    fun key' action' => ?_⟩
  cases key' with
  | socket sid => exact (if_neg fun heq => nomatch heq.1).symm
  | ip address' =>
    refine (History.stamps_ask ..).trans ?_
    simp only [Key.ip.injEq]
    rfl

/-- A call that is counted is counted in the log. -/
theorem Counts.tracks {allowed : Bool} (hc : Counts r now key action limit r' allowed)
    (h : Tracks r now H) (hlimit : r.limitOf key action = some limit)
    {H' : Key → String → List ℚ} (hH : ∀ key' action', H' key' action' =
      H key' action' ++ if key' = key ∧ action' = action ∧ allowed = true then [now] else []) :
    Tracks r' now H' := by
  have htrim := Window.trim_eq_within (h.sorted key action) now (limit.2 : ℚ)
  have hsub := Window.trim_sublist now (limit.2 : ℚ) (r.stampsOf key action)
  refine ⟨fun key' action' => ?_, fun key' action' t ht => ?_, fun key' action' limit' hlimit' => ?_⟩
  · rw [hc.stamps]
    split
    · refine List.pairwise_append.mpr ⟨(h.sorted key action).sublist hsub, ?_, fun t ht u hu => ?_⟩
      · split <;> simp
      · split at hu
        · obtain rfl := List.mem_singleton.mp hu
          exact h.past key action t (hsub.subset ht)
        · cases hu
    · exact h.sorted key' action'
  · rw [hc.stamps] at ht
    split at ht
    · rcases List.mem_append.mp ht with ht | ht
      · exact h.past key action t (hsub.subset ht)
      · split at ht
        · exact (List.mem_singleton.mp ht).le
        · cases ht
    · exact h.past key' action' t ht
  · rw [hc.limits.limitOf] at hlimit'
    rw [hc.stamps, hH, Window.within_append]
    by_cases heq : key' = key ∧ action' = action
    · obtain ⟨rfl, rfl⟩ := heq
      obtain rfl := Option.some.inj (hlimit.symm.trans hlimit')
      rw [if_pos ⟨rfl, rfl⟩, htrim, Window.within_append,
        Window.within_within le_rfl le_rfl, h.same key' action' limit hlimit]
      simp only [true_and]
    · rw [if_neg heq, if_neg fun hall => heq ⟨hall.1, hall.2.1⟩, Window.within_nil,
        List.append_nil]
      exact h.same key' action' limit' hlimit'

/-- The answer to a call is that of the window over the log. -/
theorem Counts.answer_iff {allowed : Bool} (hc : Counts r now key action limit r' allowed)
    (h : Tracks r now H) (hlimit : r.limitOf key action = some limit) :
    allowed = true ↔ (Window.within now (limit.2 : ℚ) (H key action)).length < limit.1 := by
  rw [hc.allowed_iff, Window.trim_eq_within (h.sorted key action), h.same key action limit hlimit]

/-- A limited call is counted, after addresses may have been dropped. -/
theorem counts_check (h : Tracks r now H) (hlimit : r.limitOf key action = some limit) :
    ∃ r₀, SameLimits r r₀ ∧ Tracks r₀ now H ∧
      Counts r₀ now key action limit (r.step (now, .check key action))
        (r.answer (now, .check key action)) := by
  cases key with
  | socket sid => exact ⟨r, .refl r, h, counts_checkSocket hlimit⟩
  | ip address =>
    have hlimit : r.ipLimit action = some limit := hlimit
    unfold step answer call checkIp
    simp only [hlimit]
    split
    · exact ⟨r.pruneIps now, ⟨rfl, rfl, rfl, rfl⟩, h.prune, counts_askIp⟩
    · exact ⟨r, .refl r, h, counts_askIp⟩

/-- A call without a limit is allowed and leaves no trace. -/
theorem call_unlimited (hlimit : r.limitOf key action = none) (now : ℚ) :
    r.call now (.check key action) = (r, true) := by
  cases key with
  | socket sid =>
    have hlimit : r.socketLimit action = none := hlimit
    simp only [call, checkSocket, hlimit]
  | ip address =>
    have hlimit : r.ipLimit action = none := hlimit
    simp only [call, checkIp, hlimit]

/-- A key that is cleared has no stamps. -/
theorem stampsOf_clear (r : RateLimiter) (now : ℚ) (key key' : Key) (action : String) :
    (r.step (now, .clear key)).stampsOf key' action =
      if key' = key then [] else r.stampsOf key' action := by
  cases key with
  | socket sid =>
    cases key' with
    | ip address => rfl
    | socket sid' =>
      refine (History.stamps_erase ..).trans ?_
      simp only [Key.socket.injEq]
      rfl
  | ip address =>
    cases key' with
    | socket sid => rfl
    | ip address' =>
      refine (History.stamps_erase ..).trans ?_
      simp only [Key.ip.injEq]
      rfl

/-- What a call makes of the allowed times. -/
def recorded (H : Key → String → List ℚ) (e : Entry) (key : Key) (action : String) : List ℚ :=
  if e.call = .clear key then []
  else H key action ++ if e.call = .check key action ∧ e.answer = true then [e.time] else []

theorem Tracks.congr (h : Tracks r now H) {H' : Key → String → List ℚ}
    (hH : ∀ key action limit, r.limitOf key action = some limit → H' key action = H key action) :
    Tracks r now H' where
  sorted := h.sorted
  past := h.past
  same := fun key action limit hlimit => by
    rw [hH key action limit hlimit]
    exact h.same key action limit hlimit

/-- **The step lemma**: the limiter keeps the allowed times through every call. -/
theorem Tracks.after (h : Tracks r now H) (hnow : now ≤ now') (c : Call) :
    SameLimits r (r.step (now', c)) ∧
      Tracks (r.step (now', c)) now' (recorded H ⟨now', c, r.answer (now', c)⟩) := by
  replace h := h.later hnow
  cases c with
  | check key action =>
    have hH : ∀ key' action', recorded H ⟨now', .check key action, r.answer (now', .check key action)⟩
        key' action' = H key' action' ++ if key' = key ∧ action' = action ∧
          r.answer (now', .check key action) = true then [now'] else [] := by
      intro key' action'
      unfold recorded
      rw [if_neg nofun]
      simp only [Call.check.injEq, and_assoc, eq_comm]
    cases hlimit : r.limitOf key action with
    | none =>
      have hstep : r.step (now', .check key action) = r :=
        congrArg Prod.fst (call_unlimited hlimit now')
      rw [hstep]
      refine ⟨.refl r, h.congr fun key' action' limit' hlimit' => ?_⟩
      rw [hH, if_neg, List.append_nil]
      rintro ⟨rfl, rfl, -⟩
      exact nomatch hlimit.symm.trans hlimit'
    | some limit =>
      obtain ⟨r₀, hsame, h₀, hc⟩ := counts_check h hlimit
      exact ⟨hsame.trans hc.limits, hc.tracks h₀ ((hsame.limitOf key action).trans hlimit) hH⟩
  | clear key =>
    have hlimits : SameLimits r (r.step (now', .clear key)) := by
      cases key <;> exact ⟨rfl, rfl, rfl, rfl⟩
    have hH : ∀ key' action', recorded H ⟨now', .clear key, r.answer (now', .clear key)⟩
        key' action' = if key' = key then [] else H key' action' := by
      intro key' action'
      unfold recorded
      simp only [Call.clear.injEq, reduceCtorEq, false_and, if_false, List.append_nil, eq_comm]
    refine ⟨hlimits, fun key' action' => ?_, fun key' action' t ht => ?_,
      fun key' action' limit hlimit => ?_⟩
    · rw [stampsOf_clear]
      split
      · exact .nil
      · exact h.sorted key' action'
    · rw [stampsOf_clear] at ht
      split at ht
      · cases ht
      · exact h.past key' action' t ht
    · rw [stampsOf_clear, hH]
      split
      · rfl
      · exact h.same key' action' limit (hlimits.limitOf key' action' ▸ hlimit)

/-! ## Runs -/

/-- The allowed times are what the calls have recorded one after the other. -/
theorem allowedTimes_eq (log : List Entry) :
    allowedTimes log = log.foldl recorded fun _ _ => [] := by
  induction log using List.reverseRecOn with
  | nil => rfl
  | append_singleton log e ih =>
    funext key action
    rw [allowedTimes_append, List.foldl_append, ← ih]
    rfl

/-- **The run lemma**: the limiter keeps the allowed times of its log. -/
theorem Tracks.run (h : Tracks r now H) {l : List (ℚ × Call)}
    (hclock : (now :: (l.map Prod.fst ++ [now'])).Pairwise (· ≤ ·)) :
    SameLimits r (Runs.run step r l) ∧
      Tracks (Runs.run step r l) now' ((r.log l).foldl recorded H) := by
  induction l generalizing r now H with
  | nil => exact ⟨.refl r, h.later (by simpa using hclock)⟩
  | cons i l ih =>
    obtain ⟨hnow, hrest⟩ := List.pairwise_cons.mp hclock
    obtain ⟨hsame, htracks⟩ := h.after (hnow i.1 (by simp)) i.2
    obtain ⟨hsame', htracks'⟩ := ih htracks hrest
    exact ⟨hsame.trans hsame', htracks'⟩

/-- Limiters that keep the same times under the same limits give the same answers. -/
theorem Tracks.answer_eq (h : Tracks r now H) (h' : Tracks r' now H) (hsame : SameLimits r r')
    (c : Call) : r'.answer (now, c) = r.answer (now, c) := by
  cases c with
  | clear key => cases key <;> rfl
  | check key action =>
    have hlimit' := hsame.limitOf key action
    cases hlimit : r.limitOf key action with
    | none =>
      have hr := congrArg Prod.snd (call_unlimited hlimit now)
      exact (congrArg Prod.snd (call_unlimited (hlimit'.trans hlimit) now)).trans hr.symm
    | some limit =>
      rw [hlimit] at hlimit'
      obtain ⟨r₁, hsame₁, h₁, hc₁⟩ := counts_check h hlimit
      obtain ⟨r₂, hsame₂, h₂, hc₂⟩ := counts_check h' hlimit'
      have hiff := hc₁.answer_iff h₁ ((hsame₁.limitOf key action).trans hlimit)
      have hiff' := hc₂.answer_iff h₂ ((hsame₂.limitOf key action).trans hlimit')
      exact Bool.eq_iff_iff.mpr (hiff'.trans hiff.symm)

theorem Tracks.log_eq (h : Tracks r now H) (h' : Tracks r' now H) (hsame : SameLimits r r')
    {l : List (ℚ × Call)} (hclock : (now :: l.map Prod.fst).Pairwise (· ≤ ·)) :
    r'.log l = r.log l := by
  induction l generalizing r r' now H with
  | nil => rfl
  | cons i l ih =>
    obtain ⟨hnow, hrest⟩ := List.pairwise_cons.mp hclock
    have hle : now ≤ i.1 := hnow i.1 (by simp)
    have hanswer : r'.answer (i.1, i.2) = r.answer (i.1, i.2) :=
      (h.later hle).answer_eq (h'.later hle) hsame i.2
    obtain ⟨hstep, htracks⟩ := h.after hle i.2
    obtain ⟨hstep', htracks'⟩ := h'.after hle i.2
    rw [hanswer] at htracks'
    have hsteps : SameLimits (r.step i) (r'.step i) :=
      ⟨hstep'.socketLimits.trans (hsame.socketLimits.trans hstep.socketLimits.symm),
        hstep'.ipLimits.trans (hsame.ipLimits.trans hstep.ipLimits.symm),
        hstep'.socketOverrides.trans (hsame.socketOverrides.trans hstep.socketOverrides.symm),
        hstep'.ipOverrides.trans (hsame.ipOverrides.trans hstep.ipOverrides.symm)⟩
    have htail := ih htracks htracks' hsteps hrest
    exact congrArg₂ List.cons (congrArg (Entry.mk i.1 i.2) hanswer) htail

/-- A limiter with its limits in force, which has not been asked yet. -/
def fresh (socketLimits ipLimits ipOverrides socketOverrides : Table String Limit) :
    RateLimiter :=
  (new socketLimits ipLimits).setOverrides ipOverrides socketOverrides

theorem tracks_fresh (socketLimits ipLimits ipOverrides socketOverrides : Table String Limit)
    (now : ℚ) :
    Tracks (fresh socketLimits ipLimits ipOverrides socketOverrides) now fun _ _ => [] := by
  have hnil : ∀ key action, (fresh socketLimits ipLimits ipOverrides socketOverrides).stampsOf key
      action = [] := fun key action => by cases key <;> rfl
  refine ⟨fun key action => ?_, fun key action t ht => ?_, fun key action limit _ => ?_⟩
  · exact hnil key action ▸ .nil
  · rw [hnil] at ht
    cases ht
  · rw [hnil]

/-- **The exact sliding window**: under fixed limits, and with a clock that does not run
backwards, a call is allowed if and only if the window of its action holds fewer allowed calls
than its limit, counted since the key was cleared last; dropping addresses changes no answer. A call
is one step: nothing comes between its reading of the clock and its taking of the lock. -/
theorem sliding_window (socketLimits ipLimits ipOverrides socketOverrides : Table String Limit)
    (l : List (ℚ × Call)) (now : ℚ) (hclock : (l.map Prod.fst ++ [now]).Pairwise (· ≤ ·)) :
    let r₀ := fresh socketLimits ipLimits ipOverrides socketOverrides
    let r := Runs.run step r₀ l
    (∀ key action, r₀.limitOf key action = none → r.answer (now, .check key action) = true) ∧
      (∀ key action limit, r₀.limitOf key action = some limit →
        (r.answer (now, .check key action) = true ↔
          (Window.within now (limit.2 : ℚ) (allowedTimes (r₀.log l) key action)).length <
            limit.1)) ∧
      ∀ l', (now :: l'.map Prod.fst).Pairwise (· ≤ ·) → (r.pruneIps now).log l' = r.log l' := by
  intro r₀ r
  have hbegin : ∃ begin : ℚ, (begin :: (l.map Prod.fst ++ [now])).Pairwise (· ≤ ·) := by
    cases hl : l.map Prod.fst ++ [now] with
    | nil => exact ⟨now, by simp⟩
    | cons t times =>
      rw [hl] at hclock
      refine ⟨t, List.pairwise_cons.mpr ⟨fun u hu => ?_, hclock⟩⟩
      rcases List.mem_cons.mp hu with rfl | hu
      · exact le_rfl
      · exact (List.pairwise_cons.mp hclock).1 u hu
  obtain ⟨begin, hbegin⟩ := hbegin
  obtain ⟨hsame, htracks⟩ :=
    (tracks_fresh socketLimits ipLimits ipOverrides socketOverrides begin).run hbegin
  rw [← allowedTimes_eq] at htracks
  refine ⟨fun key action hlimit => ?_, fun key action limit hlimit => ?_, fun l' hclock' => ?_⟩
  · exact congrArg Prod.snd (call_unlimited ((hsame.limitOf key action).trans hlimit) now)
  · have hlimit' := (hsame.limitOf key action).trans hlimit
    obtain ⟨r₁, hsame₁, h₁, hc⟩ := counts_check htracks hlimit'
    exact hc.answer_iff h₁ ((hsame₁.limitOf key action).trans hlimit')
  · exact htracks.log_eq htracks.prune ⟨rfl, rfl, rfl, rfl⟩ hclock'

/-- Two log-ins a minute. -/
def loginLimits : Table String Limit := AList.singleton "login" (2, 60)

/-- Three log-ins from one address, of which the last is refused. -/
def threeLogins : List (ℚ × Call) :=
  [(0, .check (.ip "1.1.1.1") "login"), (1, .check (.ip "1.1.1.1") "login"),
   (2, .check (.ip "1.1.1.1") "login")]

/-- A minute after the first of them there is room for one more. -/
theorem sliding_window_login :
    (Runs.run step (fresh ∅ loginLimits ∅ ∅) threeLogins).answer
      (60, .check (.ip "1.1.1.1") "login") = true := by
  have hclock : (threeLogins.map Prod.fst ++ [60]).Pairwise (· ≤ ·) := by decide +kernel
  have hlimit : (fresh ∅ loginLimits ∅ ∅).limitOf (.ip "1.1.1.1") "login" = some (2, 60) := by
    decide +kernel
  refine ((sliding_window ∅ loginLimits ∅ ∅ threeLogins 60 hclock).2.1 (.ip "1.1.1.1") "login"
    (2, 60) hlimit).mpr ?_
  decide +kernel

end RateLimiter

end ScrabbleMagyar
