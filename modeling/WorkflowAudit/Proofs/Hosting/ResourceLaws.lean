import WorkflowAudit.Proofs.Hosting.AnswerLaws
import WorkflowAudit.Proofs.Http.NameLaws

namespace WorkflowAudit.Http

variable {α : Type}

def Exchange.resources (e : Exchange α) (web : (q : Request) → Answer q) : List (List UInt8) :=
  (e.questions web).map (·.url.resource)

end WorkflowAudit.Http

namespace WorkflowAudit.Hosting

open Http (Request Response Url IsLiteral utf8)

section Names

variable {name : String} {c : Char}

theorem suffix_of_isDefinitionFile (h : isDefinitionFile name) :
    ['m', 'l'] <:+ name.toList.map Char.toLower := by
  simp only [isDefinitionFile, Text.endsLowered, Bool.or_eq_true, List.isSuffixOf_iff_suffix] at h
  rcases h with h | h
  · exact List.IsSuffix.trans ⟨['.', 'y'], rfl⟩ h
  · exact List.IsSuffix.trans ⟨['.', 'y', 'a'], rfl⟩ h

theorem toLower_of_isControl (h : Url.isControl c = true) : c.toLower = c := by
  have hvalue : c.toNat = c.val.toNat := rfl
  have hupper : 'A'.val.toNat = 65 := rfl
  rw [Url.isControl, decide_eq_true_eq] at h
  rw [Char.toLower, dif_neg]
  rintro ⟨hlower, -⟩
  rw [ge_iff_le, UInt32.le_iff_toNat_le] at hlower
  omega

theorem isControl_of_isDefinitionFile (h : isDefinitionFile name) :
    ∀ c ∈ name.toList.getLast?, Url.isControl c = false := by
  intro c hc
  obtain ⟨before, hbefore⟩ := suffix_of_isDefinitionFile h
  have hlast := congrArg List.getLast? hbefore
  rw [List.getLast?_map, hc] at hlast
  cases hcontrol : Url.isControl c with
  | false => rfl
  | true =>
    obtain rfl : 'l' = c := by simpa [toLower_of_isControl hcontrol] using hlast
    cases hcontrol

theorem isDots_of_isDefinitionFile (h : isDefinitionFile name) :
    Url.isDots name.toList = false := by
  have hsuffix := suffix_of_isDefinitionFile h
  by_contra hdots
  have hmem := Url.isDots_iff.mp (Bool.of_not_eq_false hdots)
  generalize name.toList.map Char.toLower = lowered at hsuffix hmem
  fin_cases hmem <;> revert hsuffix <;> decide

end Names

namespace GitHub.Client

variable {c : Client} {repository : String} {address : Url}
variable {web : (q : Request) → Http.Answer q}

structure IsDefinitionName (name : String) : Prop where
  isDefinitionFile : isDefinitionFile name
  slash : '/' ∉ name.toList

/-- An address below which nothing else can be addressed. -/
def IsMarked (c : Client) (repository : String) : Prop :=
  '?' ∈ (c.baseUrl ++ repository).toList ∨ '#' ∈ (c.baseUrl ++ repository).toList

theorem questions_fetch {url accept : String} (h : IsAddress url address) :
    (c.fetch accept url []).questions web = [⟨address, c.headers accept⟩] := by
  have hscheme : (address.scheme = "http" || address.scheme = "https") = true := by
    simpa using h.scheme
  rw [fetch, h.reads]
  cases hweb : web ⟨address.withQuery [], c.headers accept⟩ <;>
    simp only [Url.scheme_withQuery, hscheme, if_true, Dialogue.questions, hweb] <;> rfl

theorem resources_definition {file : String}
    (h : IsAddress (c.contentsUrl repository ++ "/" ++ file) address) :
    (c.definition repository file).resources web = [address.resource] := by
  rw [Http.Exchange.resources, definition, Dialogue.questions_bind, questions_fetch h]
  rfl

theorem resources_files (h : IsAddress (c.contentsUrl repository) address) :
    (c.files repository).resources web = [address.resource] := by
  rw [Http.Exchange.resources, files, fetchJson, Dialogue.questions_bind, Dialogue.questions_bind,
    questions_fetch h]
  rfl

theorem exists_isAddress_of_files {names : List String}
    (h : (c.files repository).answeredBy web = .ok names) :
    ∃ address, IsAddress (c.contentsUrl repository) address := by
  rw [files, fetchJson, Dialogue.answeredBy_bind, Dialogue.answeredBy_bind, fetch] at h
  cases hreads : Url.read (c.contentsUrl repository) with
  | error e =>
    rw [hreads] at h
    cases h
  | ok address =>
    refine ⟨address, hreads, ?_⟩
    by_contra hscheme
    have hrefused : (address.scheme = "http" || address.scheme = "https") = false := by
      simpa using hscheme
    simp only [hreads, Url.scheme_withQuery, hrefused, Bool.false_eq_true, if_false] at h
    cases h

theorem leadsTo_contentsUrl (c : Client) (repository : String) :
    Url.LeadsTo (c.contentsUrl repository).toList "workflows".toList where
  exists_eq := by
    refine ⟨(c.baseUrl ++ "/repos/" ++ repository ++ "/contents/.githu").toList, 'b', ?_, by decide⟩
    simp [contentsUrl, workflowDirectory]
  isAlphanum := by simp
  isPlain := by
    rw [Bool.eq_false_iff, Ne, Url.isDots_iff]
    decide

theorem forall_isPathChar_contentsUrl_iff :
    (∀ d ∈ (c.contentsUrl repository).toList, Url.isPathChar d) ↔ ¬c.IsMarked repository := by
  have hfixed : ∀ s ∈ ["/repos/", "/contents/", workflowDirectory],
      ∀ d ∈ s.toList, Url.isPathChar d := by simp [workflowDirectory, Url.isPathChar]
  obtain ⟨hrepos, hcontents, hdirectory, -⟩ := by simpa only [List.forall_mem_cons] using hfixed
  have hmarks (s : List Char) : (∀ d ∈ s, Url.isPathChar d) ↔ ¬('?' ∈ s ∨ '#' ∈ s) := by
    constructor
    · rintro h (hmark | hmark)
      · exact absurd (h _ hmark) (by decide)
      · exact absurd (h _ hmark) (by decide)
    · intro h d hd
      rw [Url.isPathChar, Bool.and_eq_true, decide_eq_true_eq, decide_eq_true_eq]
      exact ⟨fun heq => h (.inl (heq ▸ hd)), fun heq => h (.inr (heq ▸ hd))⟩
  rw [IsMarked, ← hmarks]
  simp only [contentsUrl, String.toList_append, List.forall_mem_append]
  constructor
  · rintro ⟨⟨⟨⟨hbase, -⟩, hrepository⟩, -⟩, -⟩
    exact ⟨hbase, hrepository⟩
  · rintro ⟨hbase, hrepository⟩
    exact ⟨⟨⟨⟨hbase, hrepos⟩, hrepository⟩, hcontents⟩, hdirectory⟩

theorem resources_definition_of_isMarked (haddress : IsAddress (c.contentsUrl repository) address)
    (hmarked : c.IsMarked repository) {file : String} (hfile : isDefinitionFile file) :
    (c.definition repository file).resources web = [address.resource] := by
  obtain ⟨below, hreads, hscheme, hresource⟩ :=
    (leadsTo_contentsUrl c repository).read_append_of_mark haddress.reads
      (fun h => forall_isPathChar_contentsUrl_iff.mp h hmarked)
      (isControl_of_isDefinitionFile hfile)
  rw [resources_definition ⟨hreads, hscheme ▸ haddress.scheme⟩, hresource]

theorem exists_front_of_not_isMarked (haddress : IsAddress (c.contentsUrl repository) address)
    (hmarked : ¬c.IsMarked repository) :
    ∃ front last, address.resource = Http.pathBytes (front ++ [last]) ∧
      ∀ (web : (q : Request) → Http.Answer q) {file : String}, isDefinitionFile file →
        (c.definition repository file).resources web =
          [Http.pathBytes (Url.resolve (front ++ [last]).reverse (Url.nameSteps file.toList))] := by
  obtain ⟨front, hdirectory, hnames⟩ := (leadsTo_contentsUrl c repository).exists_front
    haddress.reads (forall_isPathChar_contentsUrl_iff.mpr hmarked)
  refine ⟨front, _, hdirectory, fun web _ hfile => ?_⟩
  obtain ⟨below, hreads, hscheme, hresource⟩ := hnames (isControl_of_isDefinitionFile hfile)
  rw [resources_definition ⟨hreads, hscheme ▸ haddress.scheme⟩, hresource]

theorem resources_definition_eq_iff (haddress : IsAddress (c.contentsUrl repository) address)
    {file : String} (hfile : IsDefinitionName file) :
    (c.definition repository file).resources web =
        [address.resource ++ utf8 ('/' :: file.toList)] ↔
      ¬c.IsMarked repository ∧ IsLiteral file.toList := by
  by_cases hmarked : c.IsMarked repository
  · rw [resources_definition_of_isMarked haddress hmarked hfile.isDefinitionFile]
    refine iff_of_false (fun h => ?_) fun h => h.1 hmarked
    have hlength := congrArg List.length (List.cons.inj h).1
    rw [List.length_append] at hlength
    have hname : 0 < (utf8 ('/' :: file.toList)).length := Nat.succ_pos _
    omega
  · obtain ⟨front, last, hdirectory, hnames⟩ := exists_front_of_not_isMarked haddress hmarked
    rw [hnames web hfile.isDefinitionFile, hdirectory]
    constructor
    · exact fun h => ⟨hmarked, Url.isLiteral_of_resource (List.cons.inj h).1⟩
    · rintro ⟨-, hliteral⟩
      rw [Url.resource_of_isLiteral hliteral hfile.slash
        (isDots_of_isDefinitionFile hfile.isDefinitionFile)]

theorem resources_definition_inj (haddress : IsAddress (c.contentsUrl repository) address)
    (hmarked : ¬c.IsMarked repository) {a b : String} (ha : IsDefinitionName a)
    (hb : IsDefinitionName b) (ha' : '\\' ∉ a.toList) (hb' : '\\' ∉ b.toList) :
    (c.definition repository a).resources web = (c.definition repository b).resources web ↔
      Url.nameBytes? a.toList = Url.nameBytes? b.toList := by
  obtain ⟨front, last, -, hnames⟩ := exists_front_of_not_isMarked haddress hmarked
  have hslashes {name : String} (h : '/' ∉ name.toList) (h' : '\\' ∉ name.toList) :
      ∀ d ∈ name.toList, Url.isSlash d = false := fun d hd =>
    Url.not_isSlash_iff.mpr ⟨fun heq => h (heq ▸ hd), fun heq => h' (heq ▸ hd)⟩
  rw [hnames web ha.isDefinitionFile, hnames web hb.isDefinitionFile,
    Url.resource_of_not_isSlash (hslashes ha.slash ha'),
    Url.resource_of_not_isSlash (hslashes hb.slash hb'), List.singleton_inj]
  exact (Url.elim_injective front last).eq_iff

def KeepsApart (c : Client) (repository : String) (Fit : String → Prop) : Prop :=
  ∀ (web : (q : Request) → Http.Answer q) (names : List String),
    (c.files repository).answeredBy web = .ok names → ∀ a ∈ names, ∀ b ∈ names,
      IsDefinitionName a → IsDefinitionName b → Fit a → Fit b → a ≠ b →
        (c.definition repository a).resources web ≠ (c.definition repository b).resources web

/-- Names that are said as they are keep definitions apart. What is asked for under any other name,
and which names share a place, is said in terms of how the names are read. -/
theorem definitions_apart (c : Client) (repository : String) :
    (¬c.IsMarked repository → c.KeepsApart repository fun name => IsLiteral name.toList) ∧
    ∀ (web : (q : Request) → Http.Answer q) (names : List String),
      (c.files repository).answeredBy web = .ok names →
      ∃ directory, (c.files repository).resources web = [directory] ∧
        (∀ file, IsDefinitionName file →
          ((c.definition repository file).resources web =
              [directory ++ utf8 ('/' :: file.toList)] ↔
            ¬c.IsMarked repository ∧ IsLiteral file.toList) ∧
          (c.IsMarked repository →
            (c.definition repository file).resources web = [directory])) ∧
        ∀ a b, IsDefinitionName a → IsDefinitionName b → '\\' ∉ a.toList → '\\' ∉ b.toList →
          ¬c.IsMarked repository →
          ((c.definition repository a).resources web = (c.definition repository b).resources web ↔
            Url.nameBytes? a.toList = Url.nameBytes? b.toList) := by
  refine ⟨fun hmarked web names hnames a _ b _ ha hb hliteral hliteral' hne heq => ?_,
    fun web names hnames => ?_⟩
  · obtain ⟨address, haddress⟩ := exists_isAddress_of_files hnames
    rw [(resources_definition_eq_iff haddress ha).mpr ⟨hmarked, hliteral⟩,
      (resources_definition_eq_iff haddress hb).mpr ⟨hmarked, hliteral'⟩] at heq
    have hbytes := List.append_cancel_left (List.cons.inj heq).1
    exact hne (String.toList_injective (List.cons.inj (Http.utf8_injective hbytes)).2)
  · obtain ⟨address, haddress⟩ := exists_isAddress_of_files hnames
    refine ⟨address.resource, resources_files haddress, fun file hfile => ⟨?_, fun hmarked => ?_⟩,
      fun a b ha hb ha' hb' hmarked => ?_⟩
    · exact resources_definition_eq_iff haddress hfile
    · exact resources_definition_of_isMarked haddress hmarked hfile.isDefinitionFile
    · exact resources_definition_inj haddress hmarked ha hb ha' hb'

def sampleListing : Response where
  status := 200
  body := ("[[\"ci.yml\",\"file\"],[\"a b.yml\",\"file\"]," ++
    "[\"ci.yml#old.yml\",\"file\"]]").toUTF8
  isComplete := true

def listingWeb (q : Request) : Http.Answer q := some sampleListing

theorem isAddress_sampleClient : IsAddress (sampleClient.contentsUrl "acme/web")
    ⟨"https", "api.github.com", ["repos", "acme", "web", "contents", ".github", "workflows"], none,
      none⟩ where
  reads := by with_unfolding_all rfl
  scheme := .inr rfl

theorem files_listingWeb : (sampleClient.files "acme/web").answeredBy listingWeb =
    .ok ["ci.yml", "a b.yml", "ci.yml#old.yml"] := by
  have hentries : decoded? (Json.listOf? ContentEntry.ofJson?) sampleListing =
      some [⟨"ci.yml", "file"⟩, ⟨"a b.yml", "file"⟩, ⟨"ci.yml#old.yml", "file"⟩] := by
    decide +kernel
  have hanswer : (sampleClient.fetch jsonType (sampleClient.contentsUrl "acme/web") []).answeredBy
      listingWeb = .ok sampleListing :=
    (fetch_of_response isAddress_sampleClient.reads isAddress_sampleClient.scheme rfl).1
  rw [files, fetchJson, Dialogue.answeredBy_bind, Dialogue.answeredBy_bind, hanswer]
  simp only [Dialogue.answeredBy, Except.bind, content, hentries]
  rfl

theorem not_isMarked_sampleClient : ¬sampleClient.IsMarked "acme/web" := by
  simp [IsMarked, sampleClient, defaultBaseUrl]

theorem isDefinitionName_ci : IsDefinitionName "ci.yml" := ⟨by decide +kernel, by decide +kernel⟩

theorem isDefinitionName_oldCi : IsDefinitionName "ci.yml#old.yml" :=
  ⟨by decide +kernel, by decide +kernel⟩

theorem definitions_apart_listingWeb :
    (sampleClient.definition "acme/web" "ci.yml").resources listingWeb ≠
        (sampleClient.definition "acme/web" "a b.yml").resources listingWeb ∧
      (sampleClient.definition "acme/web" "ci.yml").resources listingWeb =
        (sampleClient.definition "acme/web" "ci.yml#old.yml").resources listingWeb := by
  obtain ⟨hapart, hreads⟩ := definitions_apart sampleClient "acme/web"
  obtain ⟨directory, -, -, hsame⟩ := hreads _ _ files_listingWeb
  constructor
  · exact hapart not_isMarked_sampleClient _ _ files_listingWeb "ci.yml" (by simp) "a b.yml"
      (by simp) isDefinitionName_ci ⟨by decide +kernel, by decide +kernel⟩
      (Http.isLiteral_of_notMem (by simp)) (Http.isLiteral_of_notMem (by simp)) (by decide +kernel)
  · exact (hsame _ _ isDefinitionName_ci isDefinitionName_oldCi (by simp) (by simp)
      not_isMarked_sampleClient).mpr (by decide +kernel)

/-- A hash sign and what follows it are not sent. -/
theorem not_keepsApart : ¬∀ (c : Client) (repository : String),
    c.KeepsApart repository fun _ => True := by
  intro h
  refine h sampleClient "acme/web" _ _ files_listingWeb "ci.yml" (by simp) "ci.yml#old.yml"
    (by simp) isDefinitionName_ci isDefinitionName_oldCi trivial trivial (by decide +kernel) ?_
  exact (resources_definition_inj isAddress_sampleClient not_isMarked_sampleClient
    isDefinitionName_ci isDefinitionName_oldCi (by simp) (by simp)).mpr (by decide +kernel)

end GitHub.Client

end WorkflowAudit.Hosting
