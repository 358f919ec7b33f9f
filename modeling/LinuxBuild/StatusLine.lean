import LinuxBuild.Fetch
import LinuxBuild.Writes

/-!
# The status line

`http_status_ok` looks for the first space of the whole header block. The
response is accepted on its first line exactly when that space stands there.
-/

namespace LinuxBuild

/-- The bytes before the first CR LF. -/
def firstLine : Bytes → Bytes
  | [] => []
  | c :: rest => if c = cr && rest.head? = some lf then [] else c :: firstLine rest

/-- A version without spaces, the status 200 and a reason phrase. -/
def IsStatusLine (line : Bytes) : Prop :=
  ∃ version reason, line = ascii "HTTP/" ++ version ++ ascii " 200 " ++ reason ∧
    ' '.toUInt8 ∉ version

/-- What the cursor of `http_status_ok` walks over. -/
def walksOver (c : UInt8) : Bool := c ≠ 0 && c ≠ ' '.toUInt8

/-- A header block whose first space stands in a later line, before `200 `. -/
structure StatusInLaterLine (response : Bytes) : Prop where
  complete : IsHeaderBlock response
  protocol : ascii "HTTP/" <+: response
  noSpace : (firstLine response).all walksOver = true
  later : ∃ before after, response = firstLine response ++ before ++ ascii " 200 " ++ after ∧
    before.all walksOver = true

theorem firstLine_append (response : Bytes) (h : [cr, lf] <:+: response) :
    ∃ rest, response = firstLine response ++ cr :: lf :: rest := by
  induction response with
  | nil => simp at h
  | cons c response ih =>
    rw [firstLine]
    split
    · rename_i hend
      simp only [Bool.and_eq_true, decide_eq_true_eq] at hend
      obtain ⟨rfl, hhead⟩ := hend
      obtain ⟨rest, rfl⟩ := List.head?_eq_some_iff.mp hhead
      exact ⟨rest, rfl⟩
    · rename_i hend
      obtain hpre | hin := List.infix_cons_iff.mp h
      · obtain ⟨rest, hrest⟩ := hpre
        cases hrest
        simp at hend
      · obtain ⟨rest, hrest⟩ := ih hin
        exact ⟨rest, by rw [List.cons_append, ← hrest]⟩

/-- A text at the start of another ends before any byte that it lacks. -/
theorem prefix_of_stop {text front back : Bytes} {c : UInt8} (h : text <+: front ++ c :: back)
    (hc : c ∉ text) : text <+: front := by
  obtain ⟨rest, hrest⟩ := h
  obtain ⟨x, hfront, _⟩ | ⟨x, htext, hx⟩ := List.append_eq_append_iff.mp hrest
  · exact ⟨x, hfront.symm⟩
  · cases x with
    | nil => exact ⟨[], by rw [htext, List.append_nil, List.append_nil]⟩
    | cons d x =>
      cases hx
      exact absurd (htext ▸ List.mem_append_right _ List.mem_cons_self) hc

theorem httpStatusOk_iff {header : Bytes} : httpStatusOk header = true ↔
    ascii "HTTP/" <+: header ∧ ∃ before after, header = before ++ ascii " 200 " ++ after ∧
      before.all walksOver = true := by
  have heq : httpStatusOk header = ((ascii "HTTP/").isPrefixOf header &&
      (ascii " 200 ").isPrefixOf (header.dropWhile walksOver)) := rfl
  rw [heq, Bool.and_eq_true, List.isPrefixOf_iff_prefix, List.isPrefixOf_iff_prefix]
  apply and_congr_right
  intro _
  constructor
  · rintro ⟨after, hafter⟩
    refine ⟨header.takeWhile walksOver, after, ?_, List.all_takeWhile⟩
    rw [List.append_assoc, hafter]
    exact List.takeWhile_append_dropWhile.symm
  · rintro ⟨before, after, rfl, hbefore⟩
    refine ⟨after, ?_⟩
    rw [List.append_assoc, List.dropWhile_append_of_pos (List.all_eq_true.mp hbefore)]
    rfl

/-- The status stands in the first line, or the first line has no space. -/
theorem status_cases {line rest before after : Bytes}
    (h : line ++ cr :: rest = before ++ ascii " 200 " ++ after) :
    (∃ reason, line = before ++ ascii " 200 " ++ reason) ∨ line <+: before := by
  rw [List.append_assoc] at h
  obtain ⟨x, hbefore, _⟩ | ⟨x, hline, hx⟩ := List.append_eq_append_iff.mp h
  · exact .inr ⟨x, hbefore.symm⟩
  · left
    obtain ⟨reason, rfl⟩ := prefix_of_stop ⟨after, hx⟩ (by decide)
    exact ⟨reason, by rw [hline, List.append_assoc]⟩

/-- An accepted block has its status in the first line, unless it is one of the
failing kind. -/
theorem isStatusLine_iff {response : Bytes} (hblock : IsHeaderBlock response)
    (hok : httpStatusOk response = true) :
    IsStatusLine (firstLine response) ↔ ¬ StatusInLaterLine response := by
  obtain ⟨hprotocol, before, after, hstatus, hbefore⟩ := httpStatusOk_iff.mp hok
  obtain ⟨rest, hline⟩ := firstLine_append response
    ((List.infix_append [] [cr, lf] [cr, lf]).trans hblock.1.isInfix)
  have hspace : walksOver ' '.toUInt8 = false := by decide
  constructor
  · rintro ⟨version, reason, hform, _⟩ hlater
    have := List.all_eq_true.mp hlater.noSpace ' '.toUInt8 (by rw [hform]; simp [ascii])
    rw [hspace] at this
    cases this
  · intro hnot
    obtain ⟨reason, hreason⟩ | ⟨x, hx⟩ := status_cases (hline.symm.trans hstatus)
    · obtain ⟨version, rfl⟩ : ascii "HTTP/" <+: before := by
        rw [hstatus, List.append_assoc] at hprotocol
        have hstop : ' '.toUInt8 ∉ ascii "HTTP/" := by decide
        exact prefix_of_stop hprotocol hstop
      refine ⟨version, reason, hreason, fun hmem => ?_⟩
      have := List.all_eq_true.mp hbefore _ (List.mem_append_right _ hmem)
      rw [hspace] at this
      cases this
    · rw [← hx, List.all_append, Bool.and_eq_true] at hbefore
      refine absurd ⟨hblock, hprotocol, hbefore.1, x, after, ?_, hbefore.2⟩ hnot
      rw [hx]
      exact hstatus

namespace Payload

open Interaction

/-! ## `read_response_header` -/

/-- One round: there is no room, the read fails, or one more byte is stored. -/
theorem headerTurn_cases {fd capacity : Nat} {header : Bytes} {t : Trace Call Reply}
    {y : Bytes ⊕ Option Bytes} (h : Runs (headerTurn fd capacity header) t y) (hl : Legal t) :
    (received fd t = [] ∧ y = .inr none) ∨
      ∃ c, received fd t = [c] ∧ y =
        if crlfCrlf <:+ header ++ [c] then
          .inr (if httpStatusOk (header ++ [c]) then some (header ++ [c]) else none)
        else .inl (header ++ [c]) := by
  rw [headerTurn] at h
  split at h
  · obtain ⟨r, u, rfl, hu⟩ := runs_ask_bind.mp h
    have hallow := (legal_cons.mp hl).1
    simp only [Call.allows, Bool.and_eq_true, decide_eq_true_eq] at hallow
    have hreceived : received fd ((.read fd 1, r) :: u) = r.bytes ++ received fd u := by
      simp [received]
    split at hu
    · obtain ⟨rfl, rfl⟩ := runs_ret.mp hu
      have hzero : r.value.toNat = 0 := by omega
      exact .inl ⟨by rw [hreceived, Reply.bytes, hzero]; rfl, rfl⟩
    · right
      have hone : r.value.toNat = 1 := by omega
      obtain ⟨c, rest, hdata⟩ := List.exists_cons_of_length_pos (l := r.data) (by omega)
      have hhead : r.data.headD 0 = c := by rw [hdata]; rfl
      simp only [hhead] at hu
      have hbytes : r.bytes = [c] := by rw [Reply.bytes, hone, hdata]; rfl
      refine ⟨c, ?_⟩
      by_cases hsuffix : crlfCrlf <:+ header ++ [c]
      · rw [if_pos (List.isSuffixOf_iff_suffix.mpr hsuffix)] at hu
        obtain ⟨rfl, rfl⟩ := runs_ret.mp hu
        rw [if_pos hsuffix]
        exact ⟨by rw [hreceived, hbytes]; rfl, rfl⟩
      · rw [if_neg fun hs => hsuffix (List.isSuffixOf_iff_suffix.mp hs)] at hu
        obtain ⟨rfl, rfl⟩ := runs_ret.mp hu
        rw [if_neg hsuffix]
        exact ⟨by rw [hreceived, hbytes]; rfl, rfl⟩
  · obtain ⟨rfl, rfl⟩ := runs_ret.mp h
    exact .inl ⟨rfl, rfl⟩

/-- What the rounds from a stored start of the block on return. -/
theorem headerLoop_spec {fd capacity : Nat} {header : Bytes} {t : Trace Call Reply}
    {result : Option Bytes} (h : Runs (.loop (headerTurn fd capacity) header) t result)
    (hl : Legal t) (before : ∀ p, p <+: header → ¬ crlfCrlf <:+ p) :
    result = if IsHeaderBlock (header ++ received fd t) ∧
        httpStatusOk (header ++ received fd t) = true then some (header ++ received fd t)
      else none := by
  revert hl before
  refine loop_induction (motive := fun header t result => Legal t →
    (∀ p, p <+: header → ¬ crlfCrlf <:+ p) →
    result = if IsHeaderBlock (header ++ received fd t) ∧
        httpStatusOk (header ++ received fd t) = true then some (header ++ received fd t)
      else none) ?_ ?_ h
  · intro header t result hturn hl before
    obtain ⟨hreceived, hy⟩ | ⟨c, hreceived, hy⟩ := headerTurn_cases hturn hl
    · cases hy
      rw [hreceived, List.append_nil, if_neg fun hb => before _ List.prefix_rfl hb.1.1]
    · rw [hreceived]
      split at hy
      · rename_i hsuffix
        cases hy
        have hblock := headerBlock_snoc before hsuffix
        simp only [hblock, true_and]
      · cases hy
  · intro header next t u result hturn _ ih hl before
    obtain ⟨hlt, hlu⟩ := legal_append.mp hl
    obtain ⟨_, hy⟩ | ⟨c, hreceived, hy⟩ := headerTurn_cases hturn hlt
    · cases hy
    · split at hy
      · cases hy
      · rename_i hsuffix
        cases hy
        rw [ih hlu fun p hp => ?_, received_append, hreceived, List.append_assoc]
        obtain rfl | hp := List.prefix_concat_iff.mp hp
        · exact hsuffix
        · exact before p hp

theorem readResponseHeader_result {fd capacity : Nat} {t : Trace Call Reply}
    {result : Option Bytes} (h : Runs (readResponseHeader fd capacity) t result) (hl : Legal t) :
    result = if IsHeaderBlock (received fd t) ∧ httpStatusOk (received fd t) = true then
      some (received fd t) else none := by
  have := headerLoop_spec h hl fun p hp => by simp [List.prefix_nil.mp hp, crlfCrlf]
  rwa [List.nil_append] at this

/-- A response that is accepted has a 200 status line: always, unless the first
space of the block stands in a later line and the status behind it. -/
theorem accepted_status_line_iff {fd capacity : Nat} {t : Trace Call Reply}
    {result : Option Bytes} (h : Runs (readResponseHeader fd capacity) t result) (hl : Legal t) :
    (result.isSome = true → IsStatusLine (firstLine (received fd t))) ↔
      ¬ StatusInLaterLine (received fd t) := by
  rw [readResponseHeader_result h hl]
  split
  · rename_i hok
    rw [← isStatusLine_iff hok.1 hok.2]
    exact ⟨fun h => h rfl, fun h _ => h⟩
  · rename_i hnot
    refine iff_of_true (fun h => nomatch h) fun hlater => hnot ⟨hlater.complete, ?_⟩
    obtain ⟨before, after, hstatus, hbefore⟩ := hlater.later
    refine httpStatusOk_iff.mpr ⟨hlater.protocol, firstLine (received fd t) ++ before, after,
      hstatus, ?_⟩
    rw [List.all_append, hlater.noSpace, hbefore, Bool.and_self]

/-- A response that comes in byte by byte. -/
def oneByOne (fd : Nat) (response : Bytes) : Trace Call Reply :=
  response.map fun c => (.read fd 1, ⟨1, [c], []⟩)

def plainResponse : Bytes := ascii "HTTP/1.0 200 OK\r\n\r\n"

theorem plain_response_accepted :
    Runs (readResponseHeader 3 1024) (oneByOne 3 plainResponse) (some plainResponse) ∧
      IsStatusLine (firstLine (received 3 (oneByOne 3 plainResponse))) := by
  have hexec : exec scripted 30 (readResponseHeader 3 1024)
      ((oneByOne 3 plainResponse).map (·.2)) =
        some (some plainResponse, oneByOne 3 plainResponse, []) := by decide +kernel
  have hruns := (exec_sound hexec).1
  have hiff := accepted_status_line_iff hruns (by decide)
  exact ⟨hruns, hiff.mpr (fun hlater => absurd hlater.noSpace (by decide)) rfl⟩

/-- There is no status in the first line, but a 200 after the first space. -/
def misleadingResponse : Bytes := ascii "HTTP/1.1\r\nX: 200 \r\n\r\n"

theorem later_line_accepted :
    Runs (readResponseHeader 3 1024) (oneByOne 3 misleadingResponse) (some misleadingResponse) ∧
      firstLine (received 3 (oneByOne 3 misleadingResponse)) = ascii "HTTP/1.1" ∧
      ¬ IsStatusLine (ascii "HTTP/1.1") := by
  have hexec : exec scripted 30 (readResponseHeader 3 1024)
      ((oneByOne 3 misleadingResponse).map (·.2)) =
        some (some misleadingResponse, oneByOne 3 misleadingResponse, []) := by decide +kernel
  refine ⟨(exec_sound hexec).1, by decide, ?_⟩
  rintro ⟨version, reason, hform, _⟩
  have hmem : ' '.toUInt8 ∈ ascii "HTTP/1.1" := by
    rw [hform]
    simp [ascii]
  exact absurd hmem (by decide)

end Payload

end LinuxBuild
