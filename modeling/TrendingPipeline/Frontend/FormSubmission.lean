/- Unit: TrendingPipeline/Frontend/FormSubmission
   source: frontend/components/job-form.tsx, frontend/lib/api.ts, backend/api/server.go
   digest: handleSubmit of the form, from the texts of its inputs to the request of SubmitJob. -/

import TrendingPipeline.Frontend.JobForm
import TrendingPipeline.Frontend.JobsApi

set_option autoImplicit false
set_option relaxedAutoImplicit false

namespace TrendingPipeline.Frontend.FormSubmission

open TrendingPipeline.Api.Jobs
open TrendingPipeline.Api.Server (Response)
open TrendingPipeline.Base.Decimal (atoi atoi_decimal decimal splitSign)
open TrendingPipeline.Base.JsonDecode
open TrendingPipeline.Base.JsonRoundTrip (Fits decodeFirst_render literal_decimal)
open TrendingPipeline.Base.JsonText (Json decodeFirst escapeChar hexValue render renderString
  unicodeEscape)
open TrendingPipeline.Frontend.Api (readProperty)
open TrendingPipeline.Frontend.JobForm
open TrendingPipeline.Frontend.JobsApi (Engine Post browser receive receive_failed
  receive_served submitJob)
open TrendingPipeline.Proto.Messages (JobRequest JobResponse)

/-- White space and line terminators of JavaScript. -/
def isWhiteSpace (c : Char) : Bool :=
  (9 ≤ c.toNat && c.toNat ≤ 13) || (0x2000 ≤ c.toNat && c.toNat ≤ 0x200A) ||
    [0x20, 0xA0, 0x1680, 0x2028, 0x2029, 0x202F, 0x205F, 0x3000, 0xFEFF].contains c.toNat

/-- Whether a prefix gives the radix 16, and what follows it. -/
def splitRadix : List Char → ℕ × List Char
  | '0' :: 'x' :: cs => (16, cs)
  | '0' :: 'X' :: cs => (16, cs)
  | cs => (10, cs)

/-- `parseInt(text)`, before it is rounded to a double; `none` is NaN. -/
def parseInt (text : String) : Option ℤ :=
  let (negative, unsigned) := splitSign (text.toList.dropWhile isWhiteSpace)
  let (radix, rest) := splitRadix unsigned
  let digits := (rest.map hexValue).takeWhile fun d => d.any (· < radix)
  if digits = [] then none
  else
    let n := digits.foldl (fun n d => radix * n + d.getD 0) 0
    some (if negative then -n else n)

/-- A number input takes 1e2 as a hundred, but only its first digit is read. -/
example : parseInt "1e2" = some 1 ∧ parseInt "" = none := by decide

/-- A character in `JSON.stringify` of a string. -/
def quoteChar (c : Char) : List Char :=
  if c = '"' then ['\\', '"']
  else if c = '\\' then ['\\', '\\']
  else if c.toNat = 8 then ['\\', 'b']
  else if c.toNat = 9 then ['\\', 't']
  else if c.toNat = 10 then ['\\', 'n']
  else if c.toNat = 12 then ['\\', 'f']
  else if c.toNat = 13 then ['\\', 'r']
  else if c.toNat < 32 then unicodeEscape c.toNat
  else [c]

def quote (s : String) : List Char := '"' :: s.toList.flatMap quoteChar ++ ['"']

/-- `JSON.stringify` of an integer or NaN. -/
def numberText : Option ℤ → List Char
  | some n => decimal n
  | none => "null".toList

/-- The object given to `submitJob`. -/
structure SubmitJobRequest where
  region : String
  categoryId : Option ℤ
  maxResults : Option ℤ
  idempotencyKey : String

def memberText (name : String) (value : List Char) : List Char := quote name ++ ':' :: value

/-- `JSON.stringify(req)`. -/
def SubmitJobRequest.stringify (req : SubmitJobRequest) : String :=
  String.ofList <|
    '{' :: memberText "region" (quote req.region) ++
      ',' :: memberText "category_id" (numberText req.categoryId) ++
      ',' :: memberText "max_results" (numberText req.maxResults) ++
      ',' :: memberText "idempotency_key" (quote req.idempotencyKey) ++ ['}']

/-- The texts of the inputs: the two selects have the values of their items. -/
structure Form where
  region : String
  region_mem : region ∈ regions
  category : ℕ
  category_mem : category ∈ youtubeCategories
  maxResults : String

/-- `String(c.id)`. -/
def Form.categoryId (form : Form) : String := String.ofList (decimal form.category)

def Form.request (sha : Sha256) (form : Form) (now : ℤ) : SubmitJobRequest where
  region := form.region
  categoryId := parseInt form.categoryId
  maxResults := parseInt form.maxResults
  idempotencyKey :=
    generateIdempotencyKey sha form.region ((parseInt form.categoryId).getD 0) now

/-- What `handleSubmit` gets: `res.job_id`, under which the job is stored and its page is
opened, or the error that is shown. -/
def handleSubmit (engine : Engine) (post : Post) (sha : Sha256) (form : Form) (now : ℤ) :
    Except String (Option Json) :=
  (submitJob engine post (form.request sha now).stringify >>= readProperty "job_id").mapError
    engine.messageOf

def IsPlain (c : Char) : Prop := quoteChar c = [c] ∧ escapeChar c = [c]

instance (c : Char) : Decidable (IsPlain c) := inferInstanceAs (Decidable (_ ∧ _))

private theorem quote_eq {s : String} (h : ∀ c ∈ s.toList, IsPlain c) :
    quote s = renderString s := by
  have hsame : s.toList.flatMap quoteChar = s.toList.flatMap escapeChar :=
    List.flatMap_congr fun c hc => (h c hc).1.trans (h c hc).2.symm
  rw [quote, renderString, hsame]

private theorem plain_of_all {cs : List Char} (h : (cs.all fun c => decide (IsPlain c)) = true) :
    ∀ c ∈ cs, IsPlain c := by
  intro c hc
  exact of_decide_eq_true (List.all_eq_true.mp h c hc)

private theorem plain_region {region : String} (h : region ∈ regions) :
    ∀ c ∈ region.toList, IsPlain c := by
  have hall : ∀ r ∈ regions, (r.toList.all fun c => decide (IsPlain c)) = true := by decide
  exact plain_of_all (hall region h)

private theorem plain_hexByte (b : UInt8) : ∀ c ∈ hexByte b, IsPlain c := by
  have hall : ∀ n < 256,
      (((Nat.toDigits 16 n).leftpad 2 '0').all fun c => decide (IsPlain c)) = true := by
    decide +kernel
  exact plain_of_all (hall b.toNat b.toNat_lt)

private theorem plain_key (sha : Sha256) (region : String) (categoryId now : ℤ) :
    ∀ c ∈ (generateIdempotencyKey sha region categoryId now).toList, IsPlain c := by
  intro c hc
  rw [generateIdempotencyKey, truncatedHex, String.toList_ofList] at hc
  obtain ⟨b, -, hb⟩ := List.mem_flatMap.mp (List.mem_of_mem_take hc)
  exact plain_hexByte b c hb

def number : Option ℤ → Json
  | some n => .num (decimal n)
  | none => .null

def SubmitJobRequest.object (req : SubmitJobRequest) : Json :=
  .obj [("region", .str req.region), ("category_id", number req.categoryId),
    ("max_results", number req.maxResults), ("idempotency_key", .str req.idempotencyKey)]

private theorem numberText_eq (n : Option ℤ) : numberText n = render (number n) := by
  cases n with
  | none => rfl
  | some n => rfl

private theorem stringify_eq {req : SubmitJobRequest} (hregion : ∀ c ∈ req.region.toList, IsPlain c)
    (hkey : ∀ c ∈ req.idempotencyKey.toList, IsPlain c) :
    req.stringify = String.ofList (render req.object) := by
  have hnames : ∀ name ∈ ["region", "category_id", "max_results", "idempotency_key"],
      quote name = renderString name := by
    intro name hname
    have hplain : ∀ name ∈ ["region", "category_id", "max_results", "idempotency_key"],
        (name.toList.all fun c => decide (IsPlain c)) = true := by decide
    exact quote_eq (plain_of_all (hplain name hname))
  simp only [List.forall_mem_cons] at hnames
  obtain ⟨h₁, h₂, h₃, h₄, -⟩ := hnames
  simp only [SubmitJobRequest.stringify, memberText, SubmitJobRequest.object, render,
    Base.JsonText.renderMembers, quote_eq hregion, quote_eq hkey, numberText_eq, h₁, h₂, h₃, h₄,
    List.append_assoc, List.cons_append]

private theorem fits_object (req : SubmitJobRequest) : Fits 1 req.object := by
  have hnumber : ∀ n, Fits 0 (number n) := by
    intro n
    cases n with
    | none => trivial
    | some n => exact literal_decimal n
  intro m hm
  simp only [List.mem_cons, List.not_mem_nil, or_false] at hm
  rcases hm with rfl | rfl | rfl | rfl
  · trivial
  · exact hnumber _
  · exact hnumber _
  · trivial

private theorem decodeInt32_number {n : ℤ} (hexact : n.natAbs < 2 ^ 53) :
    decodeInt32 0 (.num (decimal n)) =
      if (Int32.ofInt n).toInt = n then some (Int32.ofInt n) else none := by
  have hatoi : atoi (String.ofList (decimal n)) = (Int64.ofInt n, none) :=
    atoi_decimal (by omega) (by omega)
  have hvalue : (Int64.ofInt n).toInt = n := Int64.toInt_ofInt_of_le (by omega) (by omega)
  simp only [decodeInt32, hatoi, hvalue, Int64.toInt32_ofInt]

/-- What the gateway reads where the page writes a number: NaN leaves the zero value. -/
def readNumber : Option ℤ → Option Int32
  | none => some 0
  | some n => if (Int32.ofInt n).toInt = n then some (Int32.ofInt n) else none

private theorem toInt_readNumber {n : Option ℤ} {m : Int32} (h : readNumber n = some m) :
    m.toInt = n.getD 0 := by
  cases n with
  | none =>
      obtain rfl := Option.some.inj h
      rfl
  | some n =>
      rw [readNumber] at h
      split at h
      · next hfits =>
          obtain rfl := Option.some.inj h
          exact hfits
      · cases h

private theorem large_of_readNumber {n : Option ℤ} (h : readNumber n = none) :
    n.getD 0 < -2 ^ 31 ∨ 2 ^ 31 ≤ n.getD 0 := by
  cases n with
  | none => cases h
  | some n =>
      by_contra hsmall
      rw [Option.getD_some, not_or] at hsmall
      have hfits : (Int32.ofInt n).toInt = n := Int32.toInt_ofInt_of_le (by omega) (by omega)
      rw [readNumber, if_pos hfits] at h
      cases h

private theorem decodeInt32_eq {n : Option ℤ} (hexact : ∀ m, n = some m → m.natAbs < 2 ^ 53) :
    decodeInt32 0 (number n) = readNumber n := by
  cases n with
  | none => rfl
  | some m => exact decodeInt32_number (hexact m rfl)

private theorem decodeRequest_object {req : SubmitJobRequest}
    (hcategory : ∀ m, req.categoryId = some m → m.natAbs < 2 ^ 53)
    (hresults : ∀ m, req.maxResults = some m → m.natAbs < 2 ^ 53) :
    decodeRequest req.object =
      (readNumber req.categoryId).bind fun category =>
        (readNumber req.maxResults).map fun results =>
          { region := req.region
            categoryId := category
            maxResults := results
            idempotencyKey := req.idempotencyKey } := by
  have hregion : ∀ x v, decodeMember jobRequest x ("region", v) =
      (decodeString x.region v).map fun v => { x with region := v } := by
    intro x v
    simp [decodeMember, jobRequest, field, sameName]
  have hcategoryId : ∀ x v, decodeMember jobRequest x ("category_id", v) =
      (decodeInt32 x.categoryId v).map fun v => { x with categoryId := v } := by
    intro x v
    simp [decodeMember, jobRequest, field, sameName, foldRune]
  have hmaxResults : ∀ x v, decodeMember jobRequest x ("max_results", v) =
      (decodeInt32 x.maxResults v).map fun v => { x with maxResults := v } := by
    intro x v
    simp [decodeMember, jobRequest, field, sameName, foldRune]
  have hkey : ∀ x v, decodeMember jobRequest x ("idempotency_key", v) =
      (decodeString x.idempotencyKey v).map fun v => { x with idempotencyKey := v } := by
    intro x v
    simp [decodeMember, jobRequest, field, sameName, foldRune]
  rw [decodeRequest, SubmitJobRequest.object, decodeStruct]
  simp only [List.foldlM_cons, List.foldlM_nil, hregion, hcategoryId, hmaxResults, hkey,
    decodeString, Option.map_some, Option.bind_eq_bind, Option.bind_some, decodeInt32_eq hcategory]
  cases readNumber req.categoryId with
  | none => rfl
  | some category =>
      simp only [Option.map_some, Option.bind_some, decodeInt32_eq hresults]
      cases readNumber req.maxResults with
      | none => rfl
      | some results => rfl

private theorem parseInt_categoryId (form : Form) :
    parseInt form.categoryId = some (form.category : ℤ) := by
  have hall : ∀ n ∈ youtubeCategories, parseInt (String.ofList (decimal n)) = some (n : ℤ) := by
    decide +kernel
  exact hall form.category form.category_mem

@[simp] theorem request_categoryId (form : Form) (sha : Sha256) (now : ℤ) :
    (form.request sha now).categoryId = parseInt form.categoryId := by
  rw [Form.request]

@[simp] theorem request_maxResults (form : Form) (sha : Sha256) (now : ℤ) :
    (form.request sha now).maxResults = parseInt form.maxResults := by
  rw [Form.request]

private theorem request_key (form : Form) (sha : Sha256) (now : ℤ) :
    (form.request sha now).idempotencyKey =
      generateIdempotencyKey sha form.region form.category now := by
  rw [Form.request, parseInt_categoryId, Option.getD_some]

private theorem readNumber_category (form : Form) :
    readNumber (parseInt form.categoryId) = some (Int32.ofNat form.category) := by
  have hall : ∀ n ∈ youtubeCategories, readNumber (some (n : ℤ)) = some (Int32.ofNat n) := by
    decide
  rw [parseInt_categoryId]
  exact hall form.category form.category_mem

/-- The form with the number that the gateway takes over. -/
def Form.input (form : Form) (maxResults : Int32) (now : ℤ) : FormInput where
  region := form.region
  region_mem := form.region_mem
  categoryId := form.category
  categoryId_mem := form.category_mem
  maxResults := maxResults
  now := now

/-- The number in the form is not rounded in JavaScript. -/
def Form.Exact (form : Form) : Prop := ∀ n, parseInt form.maxResults = some n → n.natAbs < 2 ^ 53

section Submission

variable {form : Form} {bindJob : String → Option JobRequest}

private theorem bind_form (hjob : BindsJson decodeRequest (fun _ => True) bindJob) (sha : Sha256)
    (hexact : form.Exact) (now : ℤ) :
    bindJob (form.request sha now).stringify =
      (readNumber (parseInt form.maxResults)).map fun n => (form.input n now).request sha := by
  have hcategory : ∀ m, (form.request sha now).categoryId = some m → m.natAbs < 2 ^ 53 := by
    intro m hm
    rw [request_categoryId, parseInt_categoryId] at hm
    obtain rfl := Option.some.inj hm
    have hall : ∀ n ∈ youtubeCategories, (n : ℤ).natAbs < 2 ^ 53 := by decide
    exact hall form.category form.category_mem
  have hresults : ∀ m, (form.request sha now).maxResults = some m → m.natAbs < 2 ^ 53 := by
    intro m hm
    rw [request_maxResults] at hm
    exact hexact m hm
  have hplain : ∀ c ∈ (form.request sha now).idempotencyKey.toList, IsPlain c := by
    rw [request_key]
    exact plain_key sha form.region form.category now
  have hfirst : decodeFirst (form.request sha now).stringify =
      some (form.request sha now).object := by
    rw [stringify_eq (plain_region form.region_mem) hplain]
    exact decodeFirst_render ((fits_object _).mono (by decide))
  rw [hjob _ fun _ _ => trivial, hfirst, Option.bind_some,
    decodeRequest_object hcategory hresults, request_categoryId, readNumber_category,
    Option.bind_some, request_maxResults, request_key]
  rfl

private theorem handleSubmit_eq (engine : Engine) {post : Post} (sha : Sha256) {now : ℤ}
    {res : Response}
    (h : post "/jobs" (form.request sha now).stringify = .ok res) :
    handleSubmit engine post sha form now =
      (receive engine "Failed to submit job" res >>= readProperty "job_id").mapError
        engine.messageOf := by
  have hsubmit : submitJob engine post (form.request sha now).stringify =
      receive engine "Failed to submit job" res := by
    rw [submitJob, h]
    rfl
  rw [handleSubmit, hsubmit]

private theorem handleSubmit_failed (engine : Engine) {post : Post} (sha : Sha256) {now : ℤ}
    {status : ℕ}
    {message : String} (hstatus : 300 ≤ status)
    (h : post "/jobs" (form.request sha now).stringify = .ok (failed status message)) :
    handleSubmit engine post sha form now = .error message := by
  rw [handleSubmit_eq engine sha h, receive_failed engine hstatus]
  rfl

private theorem handleSubmit_served (engine : Engine) {post : Post} (sha : Sha256) {now : ℤ}
    {jobId : String} (h : post "/jobs" (form.request sha now).stringify =
      .ok { status := 200, body := String.ofList (render (.obj [("job_id", .str jobId)])) }) :
    handleSubmit engine post sha form now = .ok (some (.str jobId)) := by
  have hfits : Fits 1 (.obj [("job_id", .str jobId)]) := by
    intro m hm
    obtain rfl := List.mem_singleton.mp hm
    trivial
  rw [handleSubmit_eq engine sha h, receive_served engine (hfits.mono (by decide))]
  rfl

/-- Whatever stands in the inputs when the form is submitted, a number that JavaScript would
round set aside: a number of results that fits 32 bits, or zero where there is none, reaches
SubmitJob with the region, the category and the key of the form, and the page gets the job's
id or the gateway's text; a larger one is refused, and SubmitJob is not called. -/
theorem form_submitted (engine : Engine) (sha : Sha256)
    (hjob : BindsJson decodeRequest (fun _ => True) bindJob) (hexact : form.Exact) (now : ℤ)
    (submit : JobRequest → Option JobResponse) :
    let number := (parseInt form.maxResults).getD 0
    let served := handleSubmitJob bindJob submit (form.request sha now).stringify
    let shown := handleSubmit engine (fun _ body => .ok (handleSubmitJob bindJob submit body).1)
      sha form now
    (∃ n : Int32, n.toInt = number ∧ served.2 = some ((form.input n now).request sha) ∧
      shown = match submit ((form.input n now).request sha) with
        | none => .error "failed to submit job"
        | some resp => .ok (some (.str resp.jobId))) ∨
      (number < -2 ^ 31 ∨ 2 ^ 31 ≤ number) ∧ served.2 = none ∧
        shown = .error "invalid request" := by
  dsimp only
  have hbind := bind_form hjob sha hexact now
  cases hread : readNumber (parseInt form.maxResults) with
  | none =>
      rw [hread, Option.map_none] at hbind
      have hserved : handleSubmitJob bindJob submit (form.request sha now).stringify =
          (failed 400 "invalid request", none) := by
        rw [handleSubmitJob, hbind]
      refine .inr ⟨large_of_readNumber hread, congrArg Prod.snd hserved, ?_⟩
      exact handleSubmit_failed engine sha (by decide)
        (congrArg (fun served => Except.ok served.1) hserved)
  | some n =>
      rw [hread, Option.map_some] at hbind
      refine .inl ⟨n, toInt_readNumber hread, ?_⟩
      cases hsubmit : submit ((form.input n now).request sha) with
      | none =>
          have hserved : handleSubmitJob bindJob submit (form.request sha now).stringify =
              (failed 500 "failed to submit job", some ((form.input n now).request sha)) := by
            rw [handleSubmitJob, hbind]
            simp only [hsubmit]
          exact ⟨congrArg Prod.snd hserved, handleSubmit_failed engine sha (by decide)
            (congrArg (fun served => Except.ok served.1) hserved)⟩
      | some resp =>
          have hserved : handleSubmitJob bindJob submit (form.request sha now).stringify =
              ({ status := 200
                 body := String.ofList (render (.obj [("job_id", .str resp.jobId)])) },
                some ((form.input n now).request sha)) := by
            rw [handleSubmitJob, hbind]
            simp only [hsubmit]
          exact ⟨congrArg Prod.snd hserved, handleSubmit_served engine sha
            (congrArg (fun served => Except.ok served.1) hserved)⟩

private theorem us_mem : "US" ∈ regions := List.mem_cons_self

private theorem science_mem : 28 ∈ youtubeCategories := by decide

/-- A hundred results, asked for as 1e2, of which `parseInt` reads the 1. -/
def hundred : Form where
  region := "US"
  region_mem := us_mem
  category := 28
  category_mem := science_mem
  maxResults := "1e2"

def zeros : Sha256 where
  digest _ := List.replicate 32 0
  length_digest _ := List.length_replicate

theorem form_submitted_hundred :
    let bindJob := fun b => (decodeFirst b).bind decodeRequest
    ∃ req, (handleSubmitJob bindJob (fun _ => none) (hundred.request zeros 0).stringify).2 =
      some req ∧ req.region = "US" ∧ req.maxResults = 1 := by
  intro bindJob
  have hjob : BindsJson decodeRequest (fun _ => True) bindJob := fun _ _ => rfl
  have hone : parseInt "1e2" = some 1 := by decide
  have hexact : hundred.Exact := by
    intro n hn
    obtain rfl := Option.some.inj (hone.symm.trans hn)
    decide
  have hnumber : (parseInt hundred.maxResults).getD 0 = 1 := congrArg (·.getD 0) hone
  rcases form_submitted browser zeros hjob hexact 0 (fun _ => none) with
    ⟨n, hn, hreq, -⟩ | ⟨hlarge, -⟩
  · have hvalue : n.toInt = (1 : Int32).toInt := hn.trans hnumber
    exact ⟨_, hreq, rfl, Int32.toInt_inj.mp hvalue⟩
  · rw [hnumber] at hlarge
    omega

end Submission

end TrendingPipeline.Frontend.FormSubmission
