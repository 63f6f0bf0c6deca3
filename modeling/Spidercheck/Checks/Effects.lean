import Spidercheck.Checks.Confinement
import Spidercheck.Checks.Exits

/-! The effect of a check. What a check makes of its page is computed from the
answers of the web alone: the row, the links it follows and the values. It takes
hold in the area of the page, whatever other checks do at the same time. -/
namespace Spidercheck

open Text Url Execution Relational

variable {py : Platform} {input : Input} {stamp : Nat → Time} {site : Site} {sites : List Site}
  {row page : Page} {targets : Nat → Prop} {values : Str → Str → Prop} {Adds : Page → Prop}
  {s t u : Database} {urls : List Str} {url : Str}

theorem Area.congr {targets' : Nat → Prop} {values' : Str → Str → Prop}
    (h : Area sites row targets values s) (hTargets : ∀ q, targets q ↔ targets' q)
    (hValues : ∀ n x, values n x ↔ values' n x) : Area sites row targets' values' s :=
  ⟨h.consistent, h.siteTable, h.stored, fun q => (h.linked q).trans (hTargets q),
    fun n x => (h.valued n x).trans (hValues n x)⟩

/-- What a session that guarantees its area also knows: stored pages stay. -/
theorem Alone.persisting {Returned : Type} {p : Session Returned} {returned : Returned → Database → Prop}
    (h : Alone Adds row p returned s) :
    Alone Adds row p (fun value t => returned value t ∧ Persisting row.idPage s t) s := by
  have hFrame := h.frame (persisting_reliance row.idPage) (fun _ _ hOthers => hOthers.persisting)
    fun _ _ hOwn => hOwn.persisting row.idPage
  refine hFrame.weaken fun r t ht => ?_
  cases r with
  | ok value => exact ht
  | error e => exact trivial

/-- Sessions of one page compose. -/
theorem Alone.bind {Returned Other : Type} {p : Session Returned} {k : Returned → Session Other}
    {returned : Returned → Database → Prop} {returned' : Other → Database → Prop}
    (h : Alone Adds row p returned s)
    (hk : ∀ value t, returned value t → Alone Adds row (k value) returned' t) :
    Alone Adds row (p >>= k) returned' s :=
  Program.Guarantees.bind h hk fun _ _ _ => trivial

theorem Alone.pure {Returned : Type} {value : Returned} {returned : Returned → Database → Prop}
    (h : returned value s) : Alone Adds row (Pure.pure value : Session Returned) returned s :=
  Program.guarantees_pure h

theorem Alone.liftExcept {Returned : Type} {r : Except PyError Returned}
    {returned : Returned → Database → Prop} (h : ∀ value, r = .ok value → returned value s) :
    Alone Adds row (Program.liftExcept r : Session Returned) returned s := by
  refine Program.guarantees_liftExcept ?_
  cases r with
  | ok value => exact h value rfl
  | error e => exact trivial

/-- The address under which a link of the site is stored. -/
def Site.address (py : Platform) (site : Site) (url : Str) : Option Address :=
  (urlparse py.netlocCheck url []).map fun info => (site.idSite, info.path, info.query)

/-- There is a page for each of the links, and the targets are the linkable ones. -/
structure Follows (py : Platform) (site : Site) (urls : List Str) (targets : Nat → Prop) (db : Database) :
    Prop where
  reached : ∀ url ∈ urls, ∃ p ∈ db.pages, site.address py url = some p.fullPath
  targets : ∀ q, targets q ↔ ∃ p ∈ db.pages, p.idPage = q ∧ p.isLinkable = true ∧
    ∃ url ∈ urls, site.address py url = some p.fullPath

theorem follows_nil (db : Database) : Follows py site [] (fun _ => False) db :=
  ⟨by simp, by simp⟩

/-- Other pages do not matter once there is one for each link. -/
theorem Follows.later (h : Follows py site urls targets s) (hDb : t.Consistent)
    (hPersists : ∀ p ∈ s.pages, t.Keeps p.identity) : Follows py site urls targets t := by
  have hKept (p : Page) (hp : p ∈ s.pages) : ∃ p' ∈ t.pages, p'.idPage = p.idPage ∧
      p'.fullPath = p.fullPath ∧ p'.isLinkable = p.isLinkable := by
    obtain ⟨p', hp', hSame⟩ := hPersists p hp
    exact ⟨p', hp', congrArg Prod.fst hSame, congrArg (·.2.1) hSame, congrArg (·.2.2) hSame⟩
  refine ⟨fun url hUrl => ?_, fun q => ?_⟩
  · obtain ⟨p, hp, hAddress⟩ := h.reached url hUrl
    obtain ⟨p', hp', -, hPath, -⟩ := hKept p hp
    exact ⟨p', hp', hPath ▸ hAddress⟩
  · rw [h.targets]
    constructor
    · rintro ⟨p, hp, rfl, hLinkable, url, hUrl, hAddress⟩
      obtain ⟨p', hp', hKey, hPath, hSame⟩ := hKept p hp
      exact ⟨p', hp', hKey, hSame.trans hLinkable, url, hUrl, hPath ▸ hAddress⟩
    · rintro ⟨p', hp', rfl, hLinkable, url, hUrl, hAddress⟩
      obtain ⟨p, hp, hAddress'⟩ := h.reached url hUrl
      obtain ⟨p'', hp'', hKey, hPath, hSame⟩ := hKept p hp
      have hEq : p'' = p' :=
        hDb.fullPaths.eq hp'' hp' (hPath.trans (Option.some.inj (hAddress'.symm.trans hAddress)))
      subst hEq
      exact ⟨p, hp, hKey.symm, hSame.symm.trans hLinkable, url, hUrl, hAddress'⟩

/-- One more link. -/
theorem Follows.snoc (h : Follows py site urls targets s) (hDb : s.Consistent) {target : Page}
    (hTarget : target ∈ s.pages) (hAddress : site.address py url = some target.fullPath) :
    Follows py site (urls ++ [url])
      (fun q => targets q ∨ target.isLinkable = true ∧ q = target.idPage) s := by
  refine ⟨List.forall_mem_append.mpr ⟨h.reached, List.forall_mem_singleton.mpr ⟨target, hTarget, hAddress⟩⟩,
    fun q => ?_⟩
  rw [h.targets]
  constructor
  · rintro (⟨p, hp, hKey, hLinkable, url', hUrl, hAddress'⟩ | ⟨hLinkable, rfl⟩)
    · exact ⟨p, hp, hKey, hLinkable, url', List.mem_append_left _ hUrl, hAddress'⟩
    · exact ⟨target, hTarget, rfl, hLinkable, url, by simp, hAddress⟩
  · rintro ⟨p, hp, rfl, hLinkable, url', hUrl, hAddress'⟩
    rcases List.mem_append.mp hUrl with hUrl | hUrl
    · exact .inl ⟨p, hp, rfl, hLinkable, url', hUrl, hAddress'⟩
    · obtain rfl := List.mem_singleton.mp hUrl
      have hEq : p = target :=
        hDb.fullPaths.eq hp hTarget (Option.some.inj (hAddress'.symm.trans hAddress))
      exact .inr ⟨hEq ▸ hLinkable, hEq ▸ rfl⟩

/-- New pages for the links are among those that the check may add. -/
def Brings (Adds : Page → Prop) (py : Platform) (stamp : Nat → Time) (site : Site) (urls : List Str) : Prop :=
  ∀ url ∈ urls, ∀ info, urlparse py.netlocCheck url [] = some info → ∀ pk,
    Adds (site.newRow stamp info.path info.query pk)

/-- Following one link keeps the area, and finds or creates the page of the link. -/
theorem Area.addPage (h : Area sites row targets values s) (hSite : site ∈ sites)
    (hBrings : Brings Adds py stamp site urls) (hUrl : url ∈ urls) :
    Alone Adds row (site.addPage py stamp url) (fun found t => Area sites row targets values t ∧
      found.1 ∈ t.pages ∧ site.address py url = some found.1.fullPath) s := by
  have hInfo : Alone Adds row (Program.liftExcept (orValueError (urlparse py.netlocCheck url [])) :
      Session ParseResult) (fun info t => Area sites row targets values t ∧
        urlparse py.netlocCheck url [] = some info) s := by
    refine Alone.liftExcept fun info hInfo => ⟨h, ?_⟩
    cases hParsed : urlparse py.netlocCheck url [] with
    | none => simp [hParsed, orValueError] at hInfo
    | some parsed =>
        rw [hParsed] at hInfo
        exact congrArg some (Except.ok.inj hInfo)
  refine hInfo.bind fun info t ht => ?_
  refine (ht.1.loadOrCreate hSite (hBrings url hUrl info ht.2)).weaken fun r u hu => ?_
  cases r with
  | error e => exact trivial
  | ok found =>
      refine ⟨hu.1, hu.2.1, ?_⟩
      rw [Site.address, ht.2, Option.map_some, hu.2.2]

/-- One turn of the loop of `_update_links`. -/
theorem Area.addLinkTurn {acc : Finset Nat} {done : List Str}
    (h : Area sites row (fun q => targets q ∨ q ∈ acc) values s) (hSite : site ∈ sites)
    (hFollows : Follows py site done (· ∈ acc) s) (hBrings : Brings Adds py stamp site urls)
    (hUrl : url ∈ urls) :
    Alone Adds row (Spidercheck.addLink py stamp site row acc url) (fun acc' t =>
      Area sites row (fun q => targets q ∨ q ∈ acc') values t ∧
        Follows py site (done ++ [url]) (· ∈ acc') t) s := by
  refine (h.addPage hSite hBrings hUrl).persisting.bind ?_
  rintro ⟨target, created⟩ t ⟨⟨hArea, hMem, hAddress⟩, hPersisting⟩
  obtain ⟨ht, -, hPersists⟩ := hPersisting h.consistent h.hasPage
  have hSoFar : Follows py site (done ++ [url])
      (fun q => q ∈ acc ∨ target.isLinkable = true ∧ q = target.idPage) t :=
    (hFollows.later ht hPersists).snoc ht hMem hAddress
  simp only
  cases hLinkable : target.isLinkable with
  | false =>
      refine Alone.pure ⟨hArea, hSoFar.reached, fun q => ?_⟩
      rw [← hSoFar.targets]
      simp [hLinkable]
  | true =>
      refine (hArea.linkTo target.idPage).persisting.bind fun _ u hEnd => ?_
      obtain ⟨hu, -, hPersists'⟩ := hEnd.2 ht hArea.hasPage
      have hDone := hSoFar.later hu hPersists'
      refine Alone.pure ⟨hEnd.1.congr (fun q => ?_) fun _ _ => Iff.rfl, hDone.reached, fun q => ?_⟩
      · rw [Finset.mem_insert, or_comm (a := q = target.idPage), or_assoc]
      · rw [← hDone.targets]
        simp [hLinkable, or_comm]

/-- `_update_links` replaces the targets of the page by those of the links. -/
theorem Area.syncLinks (h : Area sites row targets values s) (hSite : site ∈ sites)
    {links : Generator Str} (hBrings : Brings Adds py stamp site links.yielded) :
    Alone Adds row (Spidercheck.syncLinks py stamp site row links) (fun _ t => links.raised = none ∧
      ∃ targets', Area sites row targets' values t ∧ Follows py site links.yielded targets' t) s := by
  have hBefore : Alone Adds row (Session.selectFrom .link (·.targetsOf row.idPage)) (fun before t =>
      Area sites row targets values t ∧ ∀ q, q ∈ before ↔ targets q) s := by
    refine Program.guarantees_select fun t ht => ?_
    have hArea : Area sites row targets values t := h.later ht
    refine ⟨Confined.refl hArea.consistent, hArea, fun q => ?_⟩
    rw [← hArea.linked, linked_iff_mem_targetsOf]
  refine hBefore.bind fun before t ht => ?_
  have hLoop : Alone Adds row (links.yielded.foldlM (Spidercheck.addLink py stamp site row) ∅)
      (fun after u => Area sites row (fun q => targets q ∨ q ∈ after) values u ∧
        Follows py site links.yielded (· ∈ after) u) t := by
    refine Program.guarantees_foldlM (fun done acc u => Area sites row (fun q => targets q ∨ q ∈ acc) values u ∧
      Follows py site done (· ∈ acc) u) (fun _ _ => True) (fun done url rest hUrls acc u hu => ?_) ?_
    · exact hu.1.addLinkTurn hSite hu.2 hBrings (hUrls ▸ List.mem_append_right _ (List.mem_cons_self ..))
    · refine ⟨ht.1.congr (fun q => by simp) fun _ _ => Iff.rfl, by simp, by simp⟩
  refine hLoop.bind fun after u hu => ?_
  cases hRaised : links.raised with
  | some e => exact Program.guarantees_raise trivial
  | none =>
      simp only
      split
      · refine (hu.1.deleteLinks _ (fun q => decide (q ∈ before \ after)) fun _ => rfl).persisting.bind
          fun _ v hv => Alone.pure ⟨trivial, (· ∈ after), ?_, ?_⟩
        · refine hv.1.congr (fun q => ?_) fun _ _ => Iff.rfl
          rw [← ht.2]
          simp only [Finset.mem_sdiff, decide_eq_false_iff_not, not_and, not_not]
          exact ⟨fun h => h.1.elim h.2 id, fun h => ⟨.inr h, fun _ => h⟩⟩
        · obtain ⟨hDb, -, hPersists⟩ := hv.2 hu.1.consistent hu.1.hasPage
          exact hu.2.later hDb hPersists
      · next hNone =>
        refine Alone.pure ⟨trivial, (· ∈ after), hu.1.congr (fun q => ?_) fun _ _ => Iff.rfl, hu.2⟩
        rw [← ht.2]
        refine or_iff_right_of_imp fun hq => ?_
        by_contra hOut
        exact hNone ⟨q, Finset.mem_sdiff.mpr ⟨hq, hOut⟩⟩

/-- The loop sets the values of its items and leaves the others. -/
theorem Area.upserts (items : Dict) (hNames : (items.map (·.1)).Nodup)
    (h : Area sites row targets values s) :
    Alone Adds row (items.forM fun item => Value.upsert row item.1 item.2) (fun _ t =>
      Area sites row targets (fun n x => (n, x) ∈ items ∨ n ∉ items.map (·.1) ∧ values n x) t) s := by
  induction items generalizing values s with
  | nil => exact Alone.pure (h.congr (fun _ => Iff.rfl) fun n x => by simp)
  | cons item rest ih =>
      obtain ⟨hNew, hRest⟩ := List.nodup_cons.mp hNames
      refine (h.upsert item.1 item.2).bind fun _ t ht => ?_
      refine (ih hRest ht).weaken fun r u hu => ?_
      cases r with
      | error e => exact trivial
      | ok done =>
          refine hu.congr (fun _ => Iff.rfl) fun n x => ?_
          obtain ⟨name, value⟩ := item
          by_cases hName : n = name
          · subst hName
            have hOut : (n, x) ∉ rest := fun hIn => hNew (List.mem_map.mpr ⟨(n, x), hIn, rfl⟩)
            simp [setValue, hOut, hNew]
          · simp [setValue, hName]

/-- `_run_plugins` replaces the values of the page by the merged answers. -/
theorem Area.runPlugins (h : Area sites row targets values s) (plugins : List Plugin) (headers : Headers)
    (body : Str) :
    Alone Adds row (Spidercheck.runPlugins plugins row headers body) (fun _ t =>
      Area sites row targets (fun n x => (n, x) ∈ (collect row headers body plugins).1) t) s := by
  let items := (collect row headers body plugins).1
  have hBefore : Alone Adds row (Session.selectFrom .value fun db =>
      (db.values.filter (·.page == row.idPage)).map (·.name)) (fun before t =>
        Area sites row targets values t ∧ ∀ n x, values n x → n ∈ before) s := by
    refine Program.guarantees_select fun t ht => ?_
    have hArea : Area sites row targets values t := h.later ht
    refine ⟨Confined.refl hArea.consistent, hArea, fun n x hx => ?_⟩
    obtain ⟨v, hv, hOf, rfl, -⟩ := (hArea.valued n x).mpr hx
    exact List.mem_map.mpr ⟨v, List.mem_filter.mpr ⟨hv, by simpa using hOf⟩, rfl⟩
  refine hBefore.bind fun before t ht => ?_
  -- once the names that the answers lack have gone, the loop sets all others
  have hLoop {kept : Str → Str → Prop} {u : Database} (hu : Area sites row targets kept u)
      (hKept : ∀ n x, kept n x → n ∈ items.map (·.1)) :
      Alone Adds row (items.forM fun item => Value.upsert row item.1 item.2)
        (fun _ v => Area sites row targets (fun n x => (n, x) ∈ items) v) u := by
    refine (hu.upserts items (nodup_collect row headers body plugins)).weaken fun r v hv => ?_
    cases r with
    | error e => exact trivial
    | ok done =>
        refine hv.congr (fun _ => Iff.rfl) fun n x => or_iff_left ?_
        rintro ⟨hOut, hx⟩
        exact hOut (hKept n x hx)
  have hReport {u : Database} (hu : Area sites row targets (fun n x => (n, x) ∈ items) u) :
      Alone Adds row (do
        if (collect row headers body plugins).2 ≠ [] then
          return .fail ("Error al ejecutar los plug-ins:\n" ++ joinFailures (collect row headers body plugins).2)
        return .success items : Session (Result Dict))
        (fun _ v => Area sites row targets (fun n x => (n, x) ∈ items) v) u := by
    split
    · exact Alone.pure hu
    · exact Alone.pure hu
  have hGone {n x : Str} (hx : values n x) (hOut : n ∉ items.map (·.1)) :
      n ∈ before.filter fun name => !items.any (·.1 == name) := by
    refine List.mem_filter.mpr ⟨ht.2 n x hx, ?_⟩
    simp only [Bool.not_eq_true', List.any_eq_false, beq_iff_eq]
    exact fun item hItem hName => hOut (List.mem_map.mpr ⟨item, hItem, hName⟩)
  simp only
  split
  · refine (ht.1.deleteValues _ (before.filter fun name => !items.any (·.1 == name)).contains
      fun _ => rfl).bind fun _ u hu => (hLoop hu ?_).bind fun _ v hv => hReport hv
    rintro n x ⟨hx, hStays⟩
    by_contra hOut
    rw [List.contains_iff_mem.mpr (hGone hx hOut)] at hStays
    cases hStays
  · next hNone =>
    refine (hLoop ht.1 fun n x hx => ?_).bind fun _ v hv => hReport hv
    by_contra hOut
    exact hNone (List.ne_nil_of_mem (hGone hx hOut))

/-- The row that a check saves last, the links it follows and the values it sets;
`none` where it leaves them as they are. -/
structure Effect where
  row : Page
  links : Option (Generator Str)
  values : Option Dict

def bodyEffect (py : Platform) (input : Input) (site : Site) (row : Page) (url : Str)
    (text : Headers × Str) : Effect :=
  if isValidHtml text.2 then
    { row := row
      links := some (row.getAllValidLinks py site input.robots text.2)
      values := some (collect row text.1 text.2 input.plugins).1 }
  else
    { row := { row with
        status := 418
        errorMessage := "La URL " ++ url ++ " debería ser HTML, pero no lo parece" }
      links := none
      values := none }

def responseEffect (py : Platform) (input : Input) (site : Site) (page : Page) (url : Str)
    (response : Response) : Except PyError Effect := do
  let row := page.answered input response (← getContentLength response.headers)
  if contentIsHtml response.headers then
    if ← site.isLocal py response.url then
      let text ← getTextFromUrl py input.get url >>= TextResult.unpack
      return bodyEffect py input site row url text
    else return { row := row, links := some { yielded := [], raised := none }, values := none }
  else return { row := row, links := none, values := none }

/-- What `check_page` makes of the page, by the answers of the web alone. -/
def Page.effect (py : Platform) (input : Input) (site : Site)
    (isValid : Site → Page → Except PyError (Result Payload)) (page : Page) : Except PyError Effect := do
  let page := page.marked input.justNow
  let url ← page.getFullUrl py site
  match ← isValid site page with
  | .failure message code =>
      return { row := page.refused input message (← intOfCode code), links := none, values := none }
  | .success value => responseEffect py input site page url (← value.asResponse "status_code")

theorem bodyEffect_identity (row : Page) (url : Str) (text : Headers × Str) :
    (bodyEffect py input site row url text).row.identity = row.identity := by
  unfold bodyEffect
  split
  · rfl
  · rfl

theorem responseEffect_identity {url : Str} {response : Response} {e : Effect}
    (h : responseEffect py input site page url response = .ok e) : e.row.identity = page.identity := by
  obtain ⟨sizeBytes, -, h⟩ := (except_bind_eq_ok _).mp h
  simp only at h
  split at h
  · obtain ⟨isLocal, -, h⟩ := (except_bind_eq_ok _).mp h
    split at h
    · obtain ⟨text, -, h⟩ := (except_bind_eq_ok _).mp h
      obtain rfl := Except.ok.inj h
      exact bodyEffect_identity _ url text
    · obtain rfl := Except.ok.inj h
      rfl
  · obtain rfl := Except.ok.inj h
    rfl

/-- No check changes the identity of its page. -/
theorem Page.effect_identity {isValid : Site → Page → Except PyError (Result Payload)} {e : Effect}
    (h : page.effect py input site isValid = .ok e) : e.row.identity = page.identity := by
  obtain ⟨url, -, h⟩ := (except_bind_eq_ok _).mp h
  obtain ⟨answer, -, h⟩ := (except_bind_eq_ok _).mp h
  cases answer with
  | failure message code =>
      obtain ⟨status, -, h⟩ := (except_bind_eq_ok _).mp h
      obtain rfl := Except.ok.inj h
      rfl
  | success value =>
      obtain ⟨response, -, h⟩ := (except_bind_eq_ok _).mp h
      have hMarked : (page.marked input.justNow).identity = page.identity := rfl
      rw [← hMarked]
      exact responseEffect_identity h

structure Effect.Leaves (e : Effect) (py : Platform) (site : Site) (sites : List Site)
    (targets : Nat → Prop) (values : Str → Str → Prop) (db : Database) : Prop where
  area : Area sites e.row (db.Linked e.row.idPage) (db.HasValue e.row.idPage) db
  links : match e.links with
    | none => ∀ q, db.Linked e.row.idPage q ↔ targets q
    | some links => links.raised = none ∧ Follows py site links.yielded (db.Linked e.row.idPage) db
  values : match e.values with
    | none => ∀ n x, db.HasValue e.row.idPage n x ↔ values n x
    | some items => ∀ n x, db.HasValue e.row.idPage n x ↔ (n, x) ∈ items

theorem Area.now (h : Area sites row targets values s) :
    Area sites row (s.Linked row.idPage) (s.HasValue row.idPage) s :=
  ⟨h.consistent, h.siteTable, h.stored, fun _ => Iff.rfl, fun _ _ => Iff.rfl⟩

/-- A check leaves the effect, even while others are under way. -/
def Effecting (py : Platform) (site : Site) (sites : List Site) (targets : Nat → Prop)
    (values : Str → Str → Prop) (effect : Except PyError Effect) (t : Database) : Prop :=
  ∃ e, effect = .ok e ∧ e.Leaves py site sites targets values t

/-- New pages of an effect are among those that the check may add. -/
def MayBring (Adds : Page → Prop) (py : Platform) (stamp : Nat → Time) (site : Site)
    (effect : Except PyError Effect) : Prop :=
  ∀ e links, effect = .ok e → e.links = some links → Brings Adds py stamp site links.yielded

theorem Follows.congr {targets' : Nat → Prop} (h : Follows py site urls targets s)
    (hSame : ∀ q, targets' q ↔ targets q) : Follows py site urls targets' s :=
  ⟨h.reached, fun q => (hSame q).trans (h.targets q)⟩

/-- The text of an HTML page leaves its effect. -/
theorem Area.checkBody (h : Area sites row targets values s) (hSite : site ∈ sites) (url : Str)
    (text : Headers × Str)
    (hBrings : MayBring Adds py input.stamp site (.ok (bodyEffect py input site row url text))) :
    Alone Adds row (Spidercheck.checkBody py input row site url text.1 text.2) (fun _ t =>
      Effecting py site sites targets values (.ok (bodyEffect py input site row url text)) t) s := by
  unfold MayBring at hBrings
  unfold Spidercheck.checkBody Effecting
  unfold bodyEffect at hBrings ⊢
  split
  · next hHtml =>
    rw [if_pos hHtml] at hBrings
    have hLinks := h.syncLinks hSite (hBrings _ _ rfl rfl)
    refine hLinks.bind fun changes t ht => ?_
    obtain ⟨hRaised, targets', hArea, hFollows⟩ := ht
    refine (hArea.runPlugins input.plugins text.1 text.2).persisting.bind fun phase u hu => ?_
    obtain ⟨hDb, -, hPersists⟩ := hu.2 hArea.consistent hArea.hasPage
    exact Alone.pure ⟨_, rfl, hu.1.now,
      ⟨hRaised, (hFollows.later hDb hPersists).congr hu.1.linked⟩, hu.1.valued⟩
  · refine (h.savePage (by rfl)).bind fun _ t ht => ?_
    exact Alone.pure ⟨_, rfl, ht.now, ht.linked, ht.valued⟩

/-- A response leaves its effect. -/
theorem Area.checkResponse (h : Area sites page targets values s) (hSite : site ∈ sites) (url : Str)
    (value : Payload)
    (hBrings : MayBring Adds py input.stamp site (do
      responseEffect py input site (page.marked input.justNow) url (← value.asResponse "status_code"))) :
    Alone Adds page (Spidercheck.checkResponse py input (page.marked input.justNow) site url value)
      (fun _ t => Effecting py site sites targets values (do
        responseEffect py input site (page.marked input.justNow) url (← value.asResponse "status_code")) t) s := by
  have hResponse : Alone Adds page (Program.liftExcept (value.asResponse "status_code") : Session Response)
      (fun response t => Area sites page targets values t ∧ value.asResponse "status_code" = .ok response) s :=
    Alone.liftExcept fun response hValue => ⟨h, hValue⟩
  refine hResponse.bind ?_
  rintro response t ⟨ht, hValue⟩
  simp only [hValue, ok_bind, responseEffect] at hBrings ⊢
  have hSize : Alone Adds page (Program.liftExcept (getContentLength response.headers) : Session Int)
      (fun sizeBytes u => Area sites page targets values u ∧ getContentLength response.headers = .ok sizeBytes) t :=
    Alone.liftExcept fun sizeBytes hLength => ⟨ht, hLength⟩
  refine hSize.bind ?_
  rintro sizeBytes u ⟨hu, hLength⟩
  let row := (page.marked input.justNow).answered input response sizeBytes
  have hSaved : Alone Adds page (Session.savePage input.stamp row)
      (fun _ v => Area sites row targets values v) u := hu.savePage (by rfl)
  refine hSaved.bind fun _ v hv => ?_
  simp only [hLength, ok_bind] at hBrings ⊢
  by_cases hKind : contentIsHtml response.headers = true
  · rw [if_pos hKind] at hBrings ⊢
    rw [if_pos hKind]
    have hLocal : Alone Adds page (Program.liftExcept (site.isLocal py response.url) : Session Bool)
        (fun isLocal w => Area sites row targets values w ∧ site.isLocal py response.url = .ok isLocal) v :=
      Alone.liftExcept fun isLocal hScope => ⟨hv, hScope⟩
    refine hLocal.bind ?_
    rintro isLocal w ⟨hw, hScope⟩
    simp only [hScope, ok_bind] at hBrings ⊢
    cases isLocal with
    | true =>
        have hText : Alone Adds page (Program.liftExcept (getTextFromUrl py input.get url >>= TextResult.unpack) :
            Session (Headers × Str)) (fun text x => Area sites row targets values x ∧
              (getTextFromUrl py input.get url >>= TextResult.unpack) = .ok text) w :=
          Alone.liftExcept fun text hText => ⟨hw, hText⟩
        refine hText.bind ?_
        rintro text x ⟨hx, hText⟩
        simp only [hText, ok_bind, if_true] at hBrings ⊢
        exact hx.checkBody hSite url text hBrings
    | false =>
        have hDelete : Alone Adds page (Session.deleteLinks (·.fromPage == page.idPage))
            (fun _ x => Area sites row (fun q => targets q ∧ true = false) values x) w :=
          hw.deleteLinks _ (fun _ => true) fun _ => (Bool.and_true _).symm
        refine hDelete.bind fun _ x hx => Alone.pure ?_
        have hNone (q : Nat) : x.Linked row.idPage q ↔ False := (hx.linked q).trans (by simp)
        exact ⟨_, rfl, hx.now, ⟨rfl, (follows_nil x).congr hNone⟩, hx.valued⟩
  · rw [if_neg hKind]
    exact Alone.pure ⟨_, if_neg hKind, hv.now, hv.linked, hv.valued⟩

/-- A failure leaves its effect. -/
theorem Area.checkFailure (h : Area sites page targets values s) (url message : Str) (code : Option Int) :
    Alone Adds page (Spidercheck.checkFailure input (page.marked input.justNow) url message code)
      (fun _ t => Effecting py site sites targets values (do
        return { row := (page.marked input.justNow).refused input message (← intOfCode code)
                 links := none
                 values := none }) t) s := by
  have hStatus : Alone Adds page (Program.liftExcept (intOfCode code) : Session Int) (fun status t =>
      Area sites page targets values t ∧ intOfCode code = .ok status) s :=
    Alone.liftExcept fun status hCode => ⟨h, hCode⟩
  refine hStatus.bind ?_
  rintro status t ⟨ht, hCode⟩
  let row := (page.marked input.justNow).refused input message status
  have hSaved : Alone Adds page (Session.savePage input.stamp row)
      (fun _ u => Area sites row targets values u) t := ht.savePage (by rfl)
  refine hSaved.bind fun _ u hu => Alone.pure ?_
  rw [hCode]
  exact ⟨_, rfl, hu.now, hu.linked, hu.valued⟩

/-- A check of a stored page is confined to it, and leaves its effect when it returns. -/
theorem Area.checkPageWith (h : Area sites page targets values s)
    (hSite : lookup Site.idSite page.site sites = some site)
    (isValid : Site → Page → Except PyError (Result Payload))
    (hBrings : MayBring Adds py input.stamp site (page.effect py input site isValid)) :
    Alone Adds page (Spidercheck.checkPageWith isValid py input page) (fun _ t =>
      Effecting py site sites targets values (page.effect py input site isValid) t) s := by
  have hLoad : Alone Adds page (siteOf (page.marked input.justNow)) (fun found t =>
      Area sites page targets values t ∧ found = site) s := by
    have hLook : Alone Adds page (Session.selectFrom .site (·.siteById page.site)) (fun found t =>
        Area sites page targets values t ∧ found = some site) s := by
      refine Program.guarantees_select fun t ht => ?_
      have hArea : Area sites page targets values t := h.later ht
      exact ⟨Confined.refl hArea.consistent, hArea, by rw [Database.siteById, hArea.siteTable, hSite]⟩
    refine hLook.bind ?_
    rintro found t ⟨ht, rfl⟩
    exact Alone.pure ⟨ht, rfl⟩
  refine hLoad.bind ?_
  rintro found t ⟨ht, rfl⟩
  have hUrl : Alone Adds page (Program.liftExcept ((page.marked input.justNow).getFullUrl py found) :
      Session Str) (fun url u => Area sites page targets values u ∧
        (page.marked input.justNow).getFullUrl py found = .ok url) t :=
    Alone.liftExcept fun url hUrl => ⟨ht, hUrl⟩
  refine hUrl.bind ?_
  rintro url u ⟨hu, hUrl⟩
  have hAnswer : Alone Adds page (Program.liftExcept (isValid found (page.marked input.justNow)) :
      Session (Result Payload)) (fun answer v => Area sites page targets values v ∧
        isValid found (page.marked input.justNow) = .ok answer) u :=
    Alone.liftExcept fun answer hAnswer => ⟨hu, hAnswer⟩
  refine hAnswer.bind ?_
  rintro answer v ⟨hv, hAnswer⟩
  simp only [Page.effect, hUrl, hAnswer, ok_bind] at hBrings ⊢
  have hIn : found ∈ sites := (mem_of_lookup hSite).1
  cases answer with
  | failure message code => exact hv.checkFailure url message code
  | success value => exact hv.checkResponse hIn url value hBrings

end Spidercheck
