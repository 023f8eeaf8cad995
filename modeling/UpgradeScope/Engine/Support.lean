import UpgradeScope.Engine.Skew

/-!
# The managed providers' support calendars

`internal/engine/support.go`: where the control plane's minor stands in its provider's calendar
(`evalSupport`), what extended support adds at list price (`costSentence`), and the minors to move to
(`supportRemediation`).
-/

namespace UpgradeScope

open Go Sorting Kb Registry

/-- `supportWarnDays`. -/
def supportWarnDays : ℤ := 90

/-- A number with at least two digits, `%02d`. -/
def twoDigits (n : ℤ) : String := if 0 ≤ n ∧ n < 10 then s!"0{n}" else toString n

/-- `formatUSD`: cents as dollars with thousands separators, the cents only when there are some. -/
def formatUSD (cents : ℤ) : String :=
  let digits := (toString (cents.tdiv 100)).toList
  let grouped := String.ofList (digits.zipIdx.flatMap fun (c, i) =>
    if 0 < i ∧ (digits.length - i) % 3 = 0 then [',', c] else [c])
  if cents.tmod 100 = 0 then "$" ++ grouped else "$" ++ grouped ++ "." ++ twoDigits (cents.tmod 100)

/-- `annualCostDelta`: (extended − standard) × 8760 hours, in cents. -/
def annualCents (pr : Pricing) : ℤ :=
  ((pr.extendedPerClusterHour - pr.standardPerClusterHour) * 8760 * 100).round.toInt64.toInt

section Support

variable (X : External)

/-- `priceText`: a price with at least two decimals. -/
def priceText (v : Float) : String :=
  let s := X.formatFloat v
  match cutChars '.' s.toList with
  | none => s ++ ".00"
  | some (_, decimals) => if byteLen (String.ofList decimals) < 2 then s ++ "0" else s

/-- `costSentence`: the annual delta as a list price. -/
def costSentence (pr : Pricing) (cents : ℤ) : String :=
  s!" Extended support costs {formatUSD cents} more per cluster per year at list price (${priceText X pr.extendedPerClusterHour} against ${priceText X pr.standardPerClusterHour} per cluster-hour, over 8,760 hours; list price as of {pr.asOf}, not your bill)." ++
    if pr.note ≠ "" then " It is " ++ pr.note ++ "." else ""

/-- The minors newer than the cluster's that are still in standard support, with their text. -/
def supportedMinors (p : ProviderSupport) (current : Version) (now : Time) : List (Version × String) :=
  p.versions.filterMap fun w =>
    match version? X w.minor, parseDate w.standardEnd with
    | some v, some end_ => if v.le current ∨ end_ ≤ now then none else some (v, w.minor)
    | _, _ => none

/-- The element a loop over minors ends with, when `better v best` says a minor replaces the best. -/
def pickMinor (better : Version → Version → Bool) (vs : List (Version × String)) :
    Option (Version × String) :=
  vs.foldl (fun best w =>
    match best with
    | none => some w
    | some b => if better w.1 b.1 then some w else some b) none

/-- `supportRemediation`: the nearest newer minor in standard support, and the newest. -/
def supportRemediation (p : ProviderSupport) (current : Version) (now : Time) : String :=
  let minors := supportedMinors X p current now
  match pickMinor (fun v b => b.gt v) minors, pickMinor Version.gt minors with
  | some (_, nearest), some (_, newest) =>
    if nearest = newest then
      s!"Upgrade the control plane, one minor at a time. The nearest minor in standard support is {nearest}."
    else
      s!"Upgrade the control plane, one minor at a time. The nearest minor in standard support is {nearest}; the newest known is {newest}."
  | _, _ => "Upgrade the control plane to a Kubernetes minor that is still in standard support."

/-- Where a day stands in a support window: its standard support ends at `from`, its extended
support, when there is one, at `ends`. -/
def supportPhase (start : Time) (ends : Option Time) (now : Time) : SupportPhase :=
  if now < start - supportWarnDays * day then .standard
  else if now < start then .ending
  else match ends with
    | some e => if now < e then .extended else .ended
    | none => .ended

/-- The price of extended support, where the provider publishes one and the minor can still be in
it. -/
def supportPrice (p : ProviderSupport) (w : SupportWindow) (phase : SupportPhase) : Option Pricing :=
  p.pricing.filter fun _ => w.extendedEnd ≠ "" ∧ phase ≠ .ended

/-- The status of a cluster in its provider's calendar. -/
def supportStatus (p : ProviderSupport) (w : SupportWindow) (minor : String) (phase : SupportPhase) :
    SupportStatus :=
  let base : SupportStatus :=
    { provider := p.id
      minor := minor
      phase := phase
      extendedSupportFrom := w.standardEnd
      extendedSupportEnds := w.extendedEnd
      extendedSupportCondition := if w.extendedEnd ≠ "" then p.extendedSupportCondition else "" }
  match supportPrice p w phase with
  | none => base
  | some pr =>
    let cents := annualCents pr
    { base with
      annualCostDelta := toString (cents.tdiv 100) ++ "." ++ twoDigits (cents.tmod 100)
      currency := pr.currency
      priceAsOf := pr.asOf
      annualCostNote := pr.note }

/-- `SupportKey`. -/
def supportKey (provider minor : String) (phase : SupportPhase) : String :=
  Category.supportLifecycle.name ++ "/" ++ provider ++ "/" ++ minor ++ "/" ++ phase.name

/-- The severity, title and detail of a support finding; `none` in standard support. -/
def supportText (p : ProviderSupport) (w : SupportWindow) (minor : String) (phase : SupportPhase)
    (cost : String) : Option (Severity × String × String) :=
  let name := p.displayName
  let condition := if w.extendedEnd ≠ "" then p.extendedSupportCondition else ""
  let extNote := if p.extendedSupportNote ≠ "" then " " ++ p.extendedSupportNote else ""
  match phase with
  | .standard => none
  | .ending =>
    let after :=
      if w.extendedEnd = "" then s!"{name} offers no extended support for it"
      else if condition ≠ "" then
        s!"extended support, which applies only if {condition}, then runs until {w.extendedEnd}"
      else s!"extended support then runs until {w.extendedEnd}, when {name} stops supporting it"
    some (.warning, s!"Kubernetes {minor} leaves {name} standard support on {w.standardEnd}",
      s!"{name} ends standard support for Kubernetes {minor} on {w.standardEnd}; {after}.{cost}{extNote}")
  | .extended =>
    let window :=
      if condition ≠ "" then
        s!"extended support, which applies only if {condition}, runs until {w.extendedEnd}; upgradescope cannot see whether this cluster is enrolled"
      else s!"the cluster is in extended support until {w.extendedEnd}, when {name} stops supporting it"
    some (.blocker, s!"Kubernetes {minor} is past {name} standard support (ended {w.standardEnd})",
      s!"{name} ended standard support for Kubernetes {minor} on {w.standardEnd}; {window}.{cost}{extNote}")
  | .ended =>
    if w.extendedEnd = "" then
      some (.blocker, s!"Kubernetes {minor} is out of {name} support (standard support ended {w.standardEnd})",
        s!"{name} ended standard support for Kubernetes {minor} on {w.standardEnd} and offered no extended support for it.{extNote}")
    else
      let ext := "extended support" ++
        if condition ≠ "" then ", which applied only if " ++ condition ++ "," else ""
      some (.blocker, s!"Kubernetes {minor} is out of {name} support (extended support ended {w.extendedEnd})",
        s!"{name} ended standard support for Kubernetes {minor} on {w.standardEnd} and {ext} on {w.extendedEnd}.{extNote}")

/-- The provider, the minor and the dates of a cluster's support, when all are known. -/
def supportWindow (inv : Inventory) (k : KB) :
    Option (ProviderSupport × Version × SupportWindow × Time × Option Time) :=
  if inv.source = .files then none
  else do
    let p ← k.provider inv.provider
    let server ← version? X inv.serverVersion
    let w ← p.versions.find? (·.minor = server.string)
    let start ← parseDate w.standardEnd
    if w.extendedEnd = "" then some (p, server, w, start, none)
    else do
      let ends ← parseDate w.extendedEnd
      some (p, server, w, start, some ends)

/-- `evalSupport`: the cluster's place in its provider's calendar and, from ninety days before the
end of standard support, the finding about it. -/
def evalSupport (inv : Inventory) (k : KB) (now : Time) : Option SupportStatus × List Finding :=
  match supportWindow X inv k with
  | none => (none, [])
  | some (p, server, w, start, ends) =>
    let phase := supportPhase start ends now
    let price := supportPrice p w phase
    let cost := (price.map fun pr => costSentence X pr (annualCents pr)).getD ""
    (some (supportStatus p w server.string phase),
      ((supportText p w server.string phase cost).map fun (sev, title, detail) =>
        { category := .supportLifecycle
          severity := sev
          key := supportKey p.id server.string phase
          title := title
          detail := detail
          remediation := supportRemediation X p server now
          citations := p.citations ++ (price.map (·.citations)).getD [] }).toList)

variable {X} in
/-- The finding about the place in a provider's calendar. -/
theorem mem_evalSupport {inv : Inventory} {k : KB} {now : Time} {f : Finding} (h : f ∈ (evalSupport X inv k now).2) :
    ∃ id server phase sev title detail remediation citations, f =
      { category := .supportLifecycle
        severity := sev
        key := supportKey id server phase
        title := title
        detail := detail
        remediation := remediation
        citations := citations } := by
  unfold evalSupport at h
  split at h
  · simp at h
  · obtain ⟨t, -, rfl⟩ := Option.map_eq_some_iff.mp (Option.mem_toList.mp h)
    exact ⟨_, _, _, _, _, _, _, _, rfl⟩

end Support

end UpgradeScope
