import Mathlib.Data.List.Basic

/-! # The external IP updater (`utils/dynamicip`: `FetchExternalIP`, `UpdateExternalIP`)

`FetchExternalIP` asks a web service for the node's public IP and strips the line breaks from
its answer; `UpdateExternalIP` does so on every tick of its ticker, and keeps each answer that
parses as an IP, until `Stop` closes its channel. But `NewExternalIPUpdater` never makes that
channel: `Stop` panics, and the loop runs on. Go strings are bytes, and `strings.Replace`
works on bytes, so an answer is a list of bytes.
-/

namespace Gecko.DynamicIP

/-! ## `strings.Replace` -/

/-- `strings.Replace(s, old, new, -1)` where `old` is `o :: os`: from left to right, each
occurrence of `old` that does not overlap one already replaced becomes `new`. -/
def replaceAll (o : UInt8) (os new : List UInt8) : List UInt8 → List UInt8
  | [] => []
  | b :: s =>
    if (o :: os).isPrefixOf (b :: s) then new ++ replaceAll o os new (s.drop os.length)
    else b :: replaceAll o os new s
termination_by s => s.length
decreasing_by
  all_goals simp_wf
  all_goals omega

theorem replaceAll_single (o : UInt8) :
    ∀ s : List UInt8, replaceAll o [] [] s = s.filter (· != o)
  | [] => by simp [replaceAll]
  | b :: s => by
    by_cases hb : o = b
    · subst hb
      simp [replaceAll, List.isPrefixOf, replaceAll_single o s]
    · simp [replaceAll, List.isPrefixOf, hb, Ne.symm hb, replaceAll_single o s]

theorem filter_replaceAll (keep : UInt8 → Bool) (o : UInt8) (os : List UInt8)
    (hold : ∀ b ∈ o :: os, keep b = false) (s : List UInt8) :
    (replaceAll o os [] s).filter keep = s.filter keep := by
  induction s using replaceAll.induct o os [] with
  | case1 => simp [replaceAll]
  | case2 b s h ih =>
    -- the match, put back in front of the rest
    have hs : b :: s = (o :: os) ++ s.drop os.length :=
      (List.prefix_iff_eq_append.1 (List.isPrefixOf_iff_prefix.1 h)).symm
    have hnil : (o :: os).filter keep = [] :=
      List.filter_eq_nil_iff.2 fun b hb => by simp [hold b hb]
    rw [replaceAll, if_pos h, List.nil_append, ih, hs, List.filter_append, hnil, List.nil_append]
  | case3 b s h ih => rw [replaceAll, if_neg h, List.filter_cons, List.filter_cons, ih]

/-! ## `FetchExternalIP` -/

/-- `FetchExternalIP` given the web service's answer: its body, or the error of `http.Get` or
of reading the body. The body has `"\r\n"`, then `"\r"`, then `"\n"` replaced by nothing. -/
def fetchExternalIP (response : Except String (List UInt8)) : Except String (List UInt8) :=
  match response with
  | .error err => .error err
  | .ok ip => .ok (replaceAll 10 [] [] (replaceAll 13 [] [] (replaceAll 13 [10] [] ip)))

/-- `FetchExternalIP` removes exactly the carriage returns and line feeds of the answer: every
other byte is kept, in order. -/
theorem fetchExternalIP_strips_line_breaks (body : List UInt8) :
    fetchExternalIP (.ok body) = .ok (body.filter fun b => b != 13 && b != 10) := by
  simp only [fetchExternalIP, replaceAll_single, List.filter_filter]
  rw [filter_replaceAll _ 13 [10] (by decide)]
  simp only [Bool.and_comm]

/-! ## `ExternalIPUpdater` -/

/-- `ExternalIPUpdater` without its logger: `tickerCloser` is `none` while the channel is nil and
`some closed` once it is made; `ip` is the IP the descriptor holds. -/
structure ExternalIPUpdater (α : Type) where
  tickerCloser : Option Bool
  ip : α

/-- `NewExternalIPUpdater(log, ip)` sets `log` and `ip`: `tickerCloser` stays nil. -/
def newExternalIPUpdater {α : Type} (ip : α) : ExternalIPUpdater α := ⟨none, ip⟩

/-- `Stop` closes `tickerCloser`; Go panics on the close of a nil or of a closed channel. -/
def ExternalIPUpdater.stop {α : Type} (u : ExternalIPUpdater α) :
    Except String (ExternalIPUpdater α) :=
  match u.tickerCloser with
  | none => .error "close of nil channel"
  | some true => .error "close of closed channel"
  | some false => .ok { u with tickerCloser := some true }

/-- What reaches the updater, in order: a tick of its ticker, with the web service's answer, or
a call of `Stop` from another goroutine. -/
inductive Event where
  | tick (response : Except String (List UInt8))
  | stop

def Event.isTick : Event → Bool
  | .tick _ => true
  | .stop => false

section update

variable {α : Type} (parseIP : List UInt8 → Option α)

/-- The loop's body on a tick, where `parseIP` is `net.ParseIP`: a failed fetch or an answer that
does not parse is logged and skipped, and any other answer is the descriptor's new IP. -/
def ExternalIPUpdater.tick (u : ExternalIPUpdater α) (response : Except String (List UInt8)) :
    ExternalIPUpdater α :=
  match fetchExternalIP response with
  | .error _ => u
  | .ok ipstr =>
    match parseIP ipstr with
    | none => u
    | some newIp => { u with ip := newIp }

/-- `UpdateExternalIP` over the events, with `Stop` called from another goroutine: `.ok` the IP
the descriptor holds and whether the loop has returned, `.error` the panic of a `Stop`, which
ends the program. The loop's `select` can take `<-u.tickerCloser` only once the channel is
closed (a receive on a nil channel blocks forever); it returns there, and no later tick reaches
it. -/
def updateExternalIP (u : ExternalIPUpdater α) : List Event → Except String (α × Bool)
  | [] => .ok (u.ip, u.tickerCloser = some true)
  | .tick response :: evs =>
    if u.tickerCloser = some true then updateExternalIP u evs
    else updateExternalIP (u.tick parseIP response) evs
  | .stop :: evs =>
    match u.stop with
    | .error e => .error e
    | .ok u => updateExternalIP u evs

/-- The IP a tick's answer gives, if it has one. -/
def Event.answer : Event → Option α
  | .tick response =>
    match fetchExternalIP response with
    | .error _ => none
    | .ok ipstr => parseIP ipstr
  | .stop => none

@[simp] theorem tick_tickerCloser (u : ExternalIPUpdater α) (response : Except String (List UInt8)) :
    (u.tick parseIP response).tickerCloser = u.tickerCloser := by
  unfold ExternalIPUpdater.tick
  rcases fetchExternalIP response with _ | ipstr
  · rfl
  · dsimp only
    cases parseIP ipstr <;> rfl

theorem tick_ip (u : ExternalIPUpdater α) (response : Except String (List UInt8)) :
    (u.tick parseIP response).ip = ((Event.tick response).answer parseIP).getD u.ip := by
  simp only [ExternalIPUpdater.tick, Event.answer]
  rcases fetchExternalIP response with _ | ipstr
  · rfl
  · dsimp only
    cases parseIP ipstr <;> rfl

theorem updateExternalIP_nil_closer {u : ExternalIPUpdater α} (hu : u.tickerCloser = none)
    (evs : List Event) :
    updateExternalIP parseIP u evs =
      if evs.all Event.isTick then
        .ok ((evs.filterMap (Event.answer parseIP)).getLast?.getD u.ip, false)
      else .error "close of nil channel" := by
  induction evs generalizing u with
  | nil => simp [updateExternalIP, hu]
  | cons ev evs ih =>
    cases ev with
    | stop => simp [updateExternalIP, ExternalIPUpdater.stop, hu, Event.isTick]
    | tick response =>
      rw [updateExternalIP, if_neg (by simp [hu]), ih (by rw [tick_tickerCloser, hu]), tick_ip]
      simp only [List.all_cons, Event.isTick, Bool.true_and]
      cases h : (Event.tick response).answer parseIP with
      | none => rw [List.filterMap_cons_none h]; rfl
      | some newIp => rw [List.filterMap_cons_some h, List.getLast?_cons, Option.getD_some]; rfl

/-- `NewExternalIPUpdater` leaves `tickerCloser` nil, so the loop never returns and a `Stop`
panics whenever it comes. Over ticks alone the descriptor holds the IP of the last answer that
parses, or the IP it started with if none does. -/
theorem updateExternalIP_last_answer (ip : α) (evs : List Event) :
    updateExternalIP parseIP (newExternalIPUpdater ip) evs =
      if evs.all Event.isTick then
        .ok ((evs.filterMap (Event.answer parseIP)).getLast?.getD ip, false)
      else .error "close of nil channel" :=
  updateExternalIP_nil_closer parseIP rfl evs

end update

end Gecko.DynamicIP
