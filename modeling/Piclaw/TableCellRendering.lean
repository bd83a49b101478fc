import Piclaw.TableCells

/-!
# What a rendered cell reads back as

The delimiters of an element are kept as text, so that its reading is the text that it was parsed
from. A backslash before punctuation is not kept, nor are the backquotes of a code span, and an
entity beyond the last code point ends the parse with an error. Every other cell reads back as it
was: each token reads as the text of its match, by induction on the parse.
-/

namespace Piclaw.TableCells

open CanonicalText

section Kept

/-- Whether a match is rendered with all its characters, given the parse of its children. -/
def keptInline (source : Units → Units) (kept : Units → Bool) : InlineMatch → Bool
  | .code _ => false
  | .image _ _ => true
  | .autolink _ => true
  | .entity name =>
    match decodeTableCellEntity source name with
    | .text _ => true
    | _ => false
  | .nested _ inner => kept inner

/-- Reading from the left, no backslash escapes anything, no code span stands outside another match,
and every entity has a code point; the same for the text inside a match. -/
def keptFrom (source : Units → Units) : ℕ → Option ℕ → Units → Bool
  | 0, _, _ => false
  | _ + 1, _, [] => true
  | fuel + 1, previous, u :: rest =>
    match escapedUnit (u :: rest) with
    | some _ => false
    | none =>
      match matchInline source previous (u :: rest) with
      | some inline =>
        keptInline source (keptFrom source fuel none) inline &&
          keptFrom source fuel inline.raw.getLast? ((u :: rest).drop inline.raw.length)
      | none => keptFrom source fuel (some u) rest

/-- A cell text that is rendered with all its characters. -/
def KeptText (source : Units → Units) (raw : Units) : Prop :=
  keptFrom source (raw.length + 1) none raw = true

end Kept

section Matches

variable {source : Units → Units} {previous : Option ℕ} {rest text opener closer : Units}
  {inline : InlineMatch} {allowed : ℕ → Bool} {least : ℕ}

theorem afterPrefix_eq (h : afterPrefix opener text = some rest) : text = opener ++ rest := by
  unfold afterPrefix at h
  split_ifs at h with hprefix
  obtain ⟨tail, rfl⟩ := hprefix
  rw [List.drop_left] at h
  rw [Option.some.inj h]

theorem takeRun_eq {run : Units} (h : takeRun allowed least text = some (run, rest)) :
    text = run ++ rest := by
  unfold takeRun at h
  split_ifs at h
  cases h
  exact (List.takeWhile_append_dropWhile).symm

theorem takeUpTo_eq {inner : Units} (h : takeUpTo closer text = some inner) :
    ∃ rest, text = inner ++ (closer ++ rest) := by
  induction text generalizing inner with
  | nil => cases h
  | cons u text ih =>
    unfold takeUpTo at h
    split_ifs at h with hcloser
    · cases h
      obtain ⟨rest, rfl⟩ := hcloser
      exact ⟨rest, rfl⟩
    · obtain ⟨inner', hinner, rfl⟩ := Option.map_eq_some_iff.mp h
      obtain ⟨rest, rfl⟩ := ih hinner
      exact ⟨rest, rfl⟩

/-- What a pattern matches stands at the head of the text. -/
theorem matchCode_atHead (h : matchCode rest = some inline) : inline.raw <+: rest := by
  unfold matchCode at h
  obtain ⟨first, hfirst, h⟩ := Option.bind_eq_some_iff.mp h
  obtain ⟨⟨text, second⟩, hrun, h⟩ := Option.bind_eq_some_iff.mp h
  obtain ⟨third, hthird, h⟩ := Option.bind_eq_some_iff.mp h
  cases h
  rw [afterPrefix_eq hfirst, takeRun_eq hrun, afterPrefix_eq hthird]
  exact ⟨third, by simp only [InlineMatch.raw, List.append_assoc]⟩

theorem matchImage_atHead (h : matchImage rest = some inline) : inline.raw <+: rest := by
  unfold matchImage at h
  obtain ⟨first, hfirst, h⟩ := Option.bind_eq_some_iff.mp h
  obtain ⟨⟨alt, second⟩, halt, h⟩ := Option.bind_eq_some_iff.mp h
  obtain ⟨third, hthird, h⟩ := Option.bind_eq_some_iff.mp h
  obtain ⟨⟨url, fourth⟩, hurl, h⟩ := Option.bind_eq_some_iff.mp h
  obtain ⟨fifth, hfifth, h⟩ := Option.bind_eq_some_iff.mp h
  cases h
  rw [afterPrefix_eq hfirst, takeRun_eq halt, afterPrefix_eq hthird, takeRun_eq hurl,
    afterPrefix_eq hfifth]
  exact ⟨fifth, by simp only [InlineMatch.raw, List.append_assoc]⟩

theorem matchAutolink_atHead (h : matchAutolink rest = some inline) : inline.raw <+: rest := by
  unfold matchAutolink at h
  obtain ⟨first, hfirst, h⟩ := Option.bind_eq_some_iff.mp h
  obtain ⟨⟨url, second⟩, hrun, h⟩ := Option.bind_eq_some_iff.mp h
  obtain ⟨third, hthird, h⟩ := Option.bind_eq_some_iff.mp h
  split_ifs at h
  cases h
  rw [afterPrefix_eq hfirst, takeRun_eq hrun, afterPrefix_eq hthird]
  exact ⟨third, by simp only [InlineMatch.raw, List.append_assoc]⟩

theorem matchEntity_atHead (h : matchEntity source rest = some inline) : inline.raw <+: rest := by
  unfold matchEntity at h
  obtain ⟨first, hfirst, h⟩ := Option.bind_eq_some_iff.mp h
  obtain ⟨⟨name, second⟩, hrun, h⟩ := Option.bind_eq_some_iff.mp h
  obtain ⟨third, hthird, h⟩ := Option.bind_eq_some_iff.mp h
  split_ifs at h
  have hinline : inline = .entity name := by
    split at h
    · cases h
    · cases h
      rfl
  rw [hinline, afterPrefix_eq hfirst, takeRun_eq hrun, afterPrefix_eq hthird]
  exact ⟨third, by simp only [InlineMatch.raw, List.append_assoc]⟩

theorem matchWrapped_atHead {wrap : Wrap} (h : matchWrapped wrap rest = some inline) :
    inline.raw <+: rest := by
  unfold matchWrapped at h
  obtain ⟨first, hfirst, h⟩ := Option.bind_eq_some_iff.mp h
  obtain ⟨inner, hinner, h⟩ := Option.bind_eq_some_iff.mp h
  cases h
  obtain ⟨second, hsecond⟩ := takeUpTo_eq hinner
  rw [afterPrefix_eq hfirst, hsecond]
  exact ⟨second, by simp only [InlineMatch.raw, List.append_assoc]⟩

theorem matchLink_atHead (h : matchLink rest = some inline) : inline.raw <+: rest := by
  unfold matchLink at h
  obtain ⟨first, hfirst, h⟩ := Option.bind_eq_some_iff.mp h
  obtain ⟨⟨inner, second⟩, hinner, h⟩ := Option.bind_eq_some_iff.mp h
  obtain ⟨third, hthird, h⟩ := Option.bind_eq_some_iff.mp h
  obtain ⟨⟨url, fourth⟩, hurl, h⟩ := Option.bind_eq_some_iff.mp h
  obtain ⟨fifth, hfifth, h⟩ := Option.bind_eq_some_iff.mp h
  cases h
  rw [afterPrefix_eq hfirst, takeRun_eq hinner, afterPrefix_eq hthird, takeRun_eq hurl,
    afterPrefix_eq hfifth]
  exact ⟨fifth, by simp only [InlineMatch.raw, Wrap.opener, Wrap.closer, List.append_assoc]⟩

theorem matchEmphasis_atHead {delimiter : ℕ} (h : matchEmphasis delimiter rest = some inline) :
    inline.raw <+: rest := by
  unfold matchEmphasis at h
  obtain ⟨first, hfirst, h⟩ := Option.bind_eq_some_iff.mp h
  obtain ⟨⟨inner, second⟩, hrun, h⟩ := Option.bind_eq_some_iff.mp h
  obtain ⟨third, hthird, h⟩ := Option.bind_eq_some_iff.mp h
  cases h
  rw [afterPrefix_eq hfirst, takeRun_eq hrun, afterPrefix_eq hthird]
  exact ⟨third, by simp only [InlineMatch.raw, Wrap.opener, Wrap.closer, List.append_assoc]⟩

theorem orElse_cases {α : Type} {a b : Option α} {x : α} (h : (a <|> b) = some x) :
    a = some x ∨ b = some x := by
  cases a with
  | none => exact .inr h
  | some y => exact .inl h

theorem matchInline_atHead (h : matchInline source previous rest = some inline) :
    inline.raw <+: rest := by
  unfold matchInline at h
  rcases orElse_cases h with h | h
  · exact matchCode_atHead h
  rcases orElse_cases h with h | h
  · exact matchImage_atHead h
  rcases orElse_cases h with h | h
  · exact matchAutolink_atHead h
  rcases orElse_cases h with h | h
  · exact matchEntity_atHead h
  rcases orElse_cases h with h | h
  · exact matchWrapped_atHead h
  rcases orElse_cases h with h | h
  · exact matchWrapped_atHead h
  rcases orElse_cases h with h | h
  · exact matchWrapped_atHead h
  rcases orElse_cases h with h | h
  · exact matchWrapped_atHead h
  rcases orElse_cases h with h | h
  · exact matchWrapped_atHead h
  rcases orElse_cases h with h | h
  · exact matchLink_atHead h
  rcases orElse_cases h with h | h
  · exact matchEmphasis_atHead h
  · split_ifs at h
    exact matchEmphasis_atHead h

theorem raw_length_pos (inline : InlineMatch) : 0 < inline.raw.length := by
  cases inline with
  | nested wrap inner =>
    cases wrap <;> simp [InlineMatch.raw, Wrap.opener, units]
  | _ => simp [InlineMatch.raw, units]

theorem inner_length_lt (wrap : Wrap) (inner : Units) :
    inner.length < (InlineMatch.nested wrap inner).raw.length := by
  cases wrap <;> simp [InlineMatch.raw, Wrap.opener, units] <;> omega

end Matches

section Fuel

variable {source : Units → Units} {inline : InlineMatch}

theorem token_congr {parse parse' : Units → Option (List TableCellInlineToken)}
    (h : ∀ inner : Units, inner.length < inline.raw.length → parse inner = parse' inner) :
    matchTableCellInlineToken source parse inline =
      matchTableCellInlineToken source parse' inline := by
  cases inline with
  | nested wrap inner =>
    have hinner := h inner (inner_length_lt wrap inner)
    cases wrap <;> simp only [matchTableCellInlineToken, hinner]
  | _ => rfl

theorem kept_congr {kept kept' : Units → Bool}
    (h : ∀ inner : Units, inner.length < inline.raw.length → kept inner = kept' inner) :
    keptInline source kept inline = keptInline source kept' inline := by
  cases inline with
  | nested wrap inner => exact h inner (inner_length_lt wrap inner)
  | _ => rfl

/-- A match takes a unit at least, and no more than there are. -/
theorem drop_length_lt {previous : Option ℕ} {rest : Units}
    (h : matchInline source previous rest = some inline) :
    inline.raw.length ≤ rest.length ∧ (rest.drop inline.raw.length).length < rest.length := by
  have hle := (matchInline_atHead h).length_le
  have hpos := raw_length_pos inline
  rw [List.length_drop]
  omega

/-- With a round for each unit and one more, further rounds change nothing. -/
theorem rounds_suffice (fuel : ℕ) (previous : Option ℕ) (buffer rest : Units)
    (h : rest.length < fuel) :
    parseFrom source (fuel + 1) previous buffer rest = parseFrom source fuel previous buffer rest ∧
      keptFrom source (fuel + 1) previous rest = keptFrom source fuel previous rest := by
  induction fuel generalizing previous buffer rest with
  | zero => omega
  | succ fuel ih =>
    cases rest with
    | nil => exact ⟨rfl, rfl⟩
    | cons u rest =>
      rw [List.length_cons] at h
      rw [parseFrom, parseFrom, keptFrom, keptFrom]
      cases hescaped : escapedUnit (u :: rest) with
      | some escaped =>
        refine ⟨(ih _ _ _ ?_).1, rfl⟩
        rw [List.length_tail]
        omega
      | none =>
        dsimp only
        cases hmatch : matchInline source previous (u :: rest) with
        | none => exact ih _ _ _ (by omega)
        | some inline =>
          obtain ⟨hle, hdrop⟩ := drop_length_lt hmatch
          rw [List.length_cons] at hle hdrop
          have hchildren : ∀ inner : Units, inner.length < inline.raw.length →
              inner.length < fuel := fun inner hinner => by omega
          have htoken : matchTableCellInlineToken source (parseFrom source (fuel + 1) none []) inline =
              matchTableCellInlineToken source (parseFrom source fuel none []) inline :=
            token_congr fun inner hinner => (ih none [] inner (hchildren inner hinner)).1
          have hkept : keptInline source (keptFrom source (fuel + 1) none) inline =
              keptInline source (keptFrom source fuel none) inline :=
            kept_congr fun inner hinner => (ih none [] inner (hchildren inner hinner)).2
          have hrest := ih inline.raw.getLast? [] ((u :: rest).drop inline.raw.length) (by omega)
          dsimp only
          rw [htoken, hkept, hrest.1, hrest.2]
          exact ⟨rfl, rfl⟩

end Fuel

section Readings

variable {normalizeLinkHref : Units → Option Units} {tokens tokens' : List TableCellInlineToken}
  {token : TableCellInlineToken}

theorem readTokens_cons : readTokens normalizeLinkHref (token :: tokens) =
    readDecoratedSourceRaw (renderTableCellToken normalizeLinkHref token) ++
      readTokens normalizeLinkHref tokens := rfl

theorem readTokens_append : readTokens normalizeLinkHref (tokens ++ tokens') =
    readTokens normalizeLinkHref tokens ++ readTokens normalizeLinkHref tokens' := by
  induction tokens with
  | nil => rfl
  | cons token tokens ih =>
    rw [List.cons_append, readTokens_cons, ih, readTokens_cons, List.append_assoc]

theorem readTokens_flush (buffer : Units) : readTokens normalizeLinkHref (flush buffer) = buffer := by
  unfold flush
  split_ifs with h
  · rw [h]
    rfl
  · simp [readTokens, appendTableCellTokens, renderTableCellToken, readAll, readDecoratedSourceRaw]

theorem read_markSpan (text : Units) : readDecoratedSourceRaw (markSpan text) = text := by
  simp [markSpan, readDecoratedSourceRaw, readAll]

/-- A wrap reads as its delimiters and what is between them. -/
theorem read_wrapped {wrap inner : String} {delimiter : Units} {children : List CellNode}
    (hwrap : wrap ∈ ["cm-md-table-cell-strong-wrap", "cm-md-table-cell-em-wrap",
      "cm-md-table-cell-strike-wrap"])
    (hinner : inner ∈ ["cm-md-table-cell-strong", "cm-md-table-cell-em",
      "cm-md-table-cell-strike"]) :
    readDecoratedSourceRaw (wrapped wrap inner delimiter children) =
      delimiter ++ readAll children ++ delimiter := by
  simp only [List.mem_cons, List.not_mem_nil, or_false] at hwrap hinner
  unfold wrapped
  rcases hwrap with rfl | rfl | rfl <;> rcases hinner with rfl | rfl | rfl <;>
    simp [readDecoratedSourceRaw, readAll, read_markSpan]

theorem read_strong (delimiter : Units) : readDecoratedSourceRaw
    (renderTableCellToken normalizeLinkHref (.strong delimiter tokens)) =
      delimiter ++ readTokens normalizeLinkHref tokens ++ delimiter := by
  rw [renderTableCellToken]
  exact read_wrapped (by decide) (by decide)

theorem read_emphasis (delimiter : Units) : readDecoratedSourceRaw
    (renderTableCellToken normalizeLinkHref (.emphasis delimiter tokens)) =
      delimiter ++ readTokens normalizeLinkHref tokens ++ delimiter := by
  rw [renderTableCellToken]
  exact read_wrapped (by decide) (by decide)

theorem read_strike : readDecoratedSourceRaw
    (renderTableCellToken normalizeLinkHref (.strike tokens)) =
      units "~~" ++ readTokens normalizeLinkHref tokens ++ units "~~" := by
  rw [renderTableCellToken]
  exact read_wrapped (by decide) (by decide)

theorem read_link (url : Units) (raw : Option Units) : readDecoratedSourceRaw
    (renderTableCellToken normalizeLinkHref (.link tokens url raw false)) =
      units "[" ++ readTokens normalizeLinkHref tokens ++ (units "](" ++ url ++ units ")") := by
  rw [renderTableCellToken]
  cases (normalizeLinkHref url).filter (· ≠ []) <;>
    simp [readDecoratedSourceRaw, readAll, read_markSpan, readTokens, units]

theorem read_autolink (url : Units) (raw : Option Units) : readDecoratedSourceRaw
    (renderTableCellToken normalizeLinkHref (.link tokens url raw true)) =
      units "<" ++ readTokens normalizeLinkHref tokens ++ units ">" := by
  rw [renderTableCellToken]
  cases (normalizeLinkHref url).filter (· ≠ []) <;>
    simp [readDecoratedSourceRaw, readAll, read_markSpan, readTokens, units]

theorem read_image (raw alt url : Units) : readDecoratedSourceRaw
    (renderTableCellToken normalizeLinkHref (.image raw alt url)) = raw := by
  rw [renderTableCellToken]
  cases (normalizeLinkHref url).filter (· ≠ []) <;> simp [readDecoratedSourceRaw]

theorem read_entity (raw text : Units) : readDecoratedSourceRaw
    (renderTableCellToken normalizeLinkHref (.entity raw text)) = raw := by
  simp [renderTableCellToken, readDecoratedSourceRaw]

theorem read_code (text : Units) : readDecoratedSourceRaw
    (renderTableCellToken normalizeLinkHref (.code text)) = text := by
  simp [renderTableCellToken, readDecoratedSourceRaw, readAll]

end Readings

section Rounds

variable {source : Units → Units}

/-- What is read of a text where it is kept, and that less is read where it is not. -/
structure ReadsAs (kept : Bool) (text reading : Units) : Prop where
  same : kept = true → reading = text
  shorter : kept = false → reading.length < text.length

theorem ReadsAs.append {kept kept' : Bool} {text text' reading reading' : Units}
    (h : ReadsAs kept text reading) (h' : ReadsAs kept' text' reading') :
    ReadsAs (kept && kept') (text ++ text') (reading ++ reading') := by
  have hle : ∀ {kept : Bool} {text reading : Units}, ReadsAs kept text reading →
      reading.length ≤ text.length := by
    intro kept text reading h
    cases hkept : kept with
    | true => rw [h.same hkept]
    | false => exact le_of_lt (h.shorter hkept)
  constructor
  · intro hboth
    rw [Bool.and_eq_true] at hboth
    rw [h.same hboth.1, h'.same hboth.2]
  · intro hlost
    rw [List.length_append, List.length_append]
    rw [Bool.and_eq_false_iff] at hlost
    rcases hlost with hlost | hlost
    · have := h.shorter hlost
      have := hle h'
      omega
    · have := h'.shorter hlost
      have := hle h
      omega

theorem ReadsAs.exact (text : Units) : ReadsAs true text text :=
  ⟨fun _ => rfl, fun h => nomatch h⟩

theorem ReadsAs.between {kept : Bool} {text reading : Units} (h : ReadsAs kept text reading)
    (opener closer : Units) :
    ReadsAs kept (opener ++ text ++ closer) (opener ++ reading ++ closer) := by
  have hboth := ((ReadsAs.exact opener).append h).append (ReadsAs.exact closer)
  rwa [Bool.true_and, Bool.and_true] at hboth

/-- A token reads as its match where its children do. -/
theorem token_reads (normalizeLinkHref : Units → Option Units)
    {parse : Units → Option (List TableCellInlineToken)} {kept : Units → Bool}
    (hchildren : ∀ inner tokens, parse inner = some tokens →
      ReadsAs (kept inner) inner (readTokens normalizeLinkHref tokens))
    {inline : InlineMatch} {token : TableCellInlineToken}
    (h : matchTableCellInlineToken source parse inline = some token) :
    ReadsAs (keptInline source kept inline) inline.raw
      (readDecoratedSourceRaw (renderTableCellToken normalizeLinkHref token)) := by
  cases inline with
  | code text =>
    cases h
    rw [read_code]
    refine ⟨fun hkept => (nomatch hkept), fun _ => ?_⟩
    simp [InlineMatch.raw, units]
  | image alt url =>
    cases h
    rw [read_image]
    exact .exact _
  | autolink url =>
    cases h
    rw [read_autolink]
    have htext : readTokens normalizeLinkHref [.text url] = url := by
      simp [readTokens, appendTableCellTokens, renderTableCellToken, readAll,
        readDecoratedSourceRaw]
    rw [htext]
    exact .exact _
  | entity name =>
    unfold matchTableCellInlineToken at h
    dsimp only at h
    cases hdecoded : decodeTableCellEntity source name with
    | text text =>
      rw [hdecoded] at h
      cases h
      rw [read_entity]
      have hkept : keptInline source kept (.entity name) = true := by
        unfold keptInline
        dsimp only
        rw [hdecoded]
      rw [hkept]
      exact .exact _
    | null =>
      rw [hdecoded] at h
      cases h
    | rangeError =>
      rw [hdecoded] at h
      cases h
  | nested wrap inner =>
    cases wrap with
    | strongEmphasis delimiter =>
      obtain ⟨children, hparse, rfl⟩ := Option.map_eq_some_iff.mp h
      have hinner := ((hchildren inner children hparse).between [delimiter] [delimiter]).between
        [delimiter, delimiter] [delimiter, delimiter]
      have hone : readTokens normalizeLinkHref [.emphasis [delimiter] children] =
          [delimiter] ++ readTokens normalizeLinkHref children ++ [delimiter] := by
        rw [readTokens_cons, read_emphasis]
        exact List.append_nil _
      rw [read_strong, hone]
      have hraw : [delimiter, delimiter] ++ ([delimiter] ++ inner ++ [delimiter]) ++
          [delimiter, delimiter] = (InlineMatch.nested (.strongEmphasis delimiter) inner).raw := by
        simp [InlineMatch.raw, Wrap.opener, Wrap.closer]
      rw [hraw] at hinner
      exact hinner
    | strong delimiter =>
      obtain ⟨children, hparse, rfl⟩ := Option.map_eq_some_iff.mp h
      rw [read_strong]
      exact (hchildren inner children hparse).between _ _
    | strike =>
      obtain ⟨children, hparse, rfl⟩ := Option.map_eq_some_iff.mp h
      rw [read_strike]
      exact (hchildren inner children hparse).between _ _
    | link url =>
      obtain ⟨children, hparse, rfl⟩ := Option.map_eq_some_iff.mp h
      rw [read_link]
      exact (hchildren inner children hparse).between _ _
    | emphasis delimiter =>
      obtain ⟨children, hparse, rfl⟩ := Option.map_eq_some_iff.mp h
      rw [read_emphasis]
      exact (hchildren inner children hparse).between _ _

theorem escapedUnit_cons {u escaped : ℕ} {rest : Units} (h : escapedUnit (u :: rest) = some escaped) :
    u = 92 ∧ ∃ tail, rest = escaped :: tail := by
  unfold escapedUnit at h
  split at h
  · rename_i v tail heq
    split_ifs at h
    cases h
    cases heq
    exact ⟨rfl, tail, rfl⟩
  · cases h

/-- What the parse has collected and what it has still to read. -/
theorem parseFrom_reads (normalizeLinkHref : Units → Option Units) (fuel : ℕ) (previous : Option ℕ) (buffer rest : Units)
    (tokens : List TableCellInlineToken)
    (h : parseFrom source fuel previous buffer rest = some tokens) :
    ReadsAs (keptFrom source fuel previous rest) (buffer ++ rest)
      (readTokens normalizeLinkHref tokens) := by
  induction fuel generalizing previous buffer rest tokens with
  | zero => cases h
  | succ fuel ih =>
    cases rest with
    | nil =>
      cases h
      rw [readTokens_flush, List.append_nil]
      exact .exact buffer
    | cons u rest =>
      unfold parseFrom at h
      unfold keptFrom
      cases hescaped : escapedUnit (u :: rest) with
      | some escaped =>
        rw [hescaped] at h
        dsimp only at h ⊢
        obtain ⟨_, tail, rfl⟩ := escapedUnit_cons hescaped
        refine ⟨fun hkept => (nomatch hkept), fun _ => ?_⟩
        have hrest := ih (some escaped) (buffer ++ [escaped]) tail tokens h
        have hle : (readTokens normalizeLinkHref tokens).length ≤
            (buffer ++ [escaped] ++ tail).length := by
          cases hkept : keptFrom source fuel (some escaped) tail with
          | true => rw [hrest.same hkept]
          | false => exact le_of_lt (hrest.shorter hkept)
        simp only [List.length_append, List.length_cons, List.length_nil] at hle ⊢
        omega
      | none =>
        rw [hescaped] at h
        dsimp only at h ⊢
        cases hmatch : matchInline source previous (u :: rest) with
        | none =>
          rw [hmatch] at h
          have hrest := ih (some u) (buffer ++ [u]) rest tokens h
          rw [List.append_assoc] at hrest
          exact hrest
        | some inline =>
          rw [hmatch] at h
          obtain ⟨token, htoken, h⟩ := Option.bind_eq_some_iff.mp h
          obtain ⟨later, hlater, h⟩ := Option.bind_eq_some_iff.mp h
          cases h
          have hchildren : ∀ inner children, parseFrom source fuel none [] inner = some children →
              ReadsAs (keptFrom source fuel none inner) inner
                (readTokens normalizeLinkHref children) := by
            intro inner children hparse
            have hinner := ih none [] inner children hparse
            rwa [List.nil_append] at hinner
          have hfirst := token_reads normalizeLinkHref hchildren htoken
          have hsecond := ih inline.raw.getLast? [] _ later hlater
          obtain ⟨tail, htail⟩ := matchInline_atHead hmatch
          rw [readTokens_append, readTokens_flush, readTokens_cons]
          have hdrop : (u :: rest).drop inline.raw.length = tail := by
            rw [← htail, List.drop_left]
          rw [hdrop, List.nil_append] at hsecond
          dsimp only
          rw [hdrop, ← htail]
          have hboth := (ReadsAs.exact buffer).append (hfirst.append hsecond)
          rw [Bool.true_and] at hboth
          exact hboth

/-- A kept text is parsed to its end. -/
theorem parseFrom_isSome (fuel : ℕ) (previous : Option ℕ) (buffer rest : Units)
    (hkept : keptFrom source fuel previous rest = true) :
    ∃ tokens, parseFrom source fuel previous buffer rest = some tokens := by
  induction fuel generalizing previous buffer rest with
  | zero => cases hkept
  | succ fuel ih =>
    cases rest with
    | nil => exact ⟨flush buffer, rfl⟩
    | cons u rest =>
      unfold keptFrom at hkept
      unfold parseFrom
      cases hescaped : escapedUnit (u :: rest) with
      | some escaped =>
        rw [hescaped] at hkept
        cases hkept
      | none =>
        rw [hescaped] at hkept
        dsimp only at hkept ⊢
        cases hmatch : matchInline source previous (u :: rest) with
        | none =>
          rw [hmatch] at hkept
          exact ih (some u) (buffer ++ [u]) rest hkept
        | some inline =>
          rw [hmatch] at hkept
          dsimp only at hkept ⊢
          rw [Bool.and_eq_true] at hkept
          obtain ⟨later, hlater⟩ := ih inline.raw.getLast? [] _ hkept.2
          have htoken : ∃ token,
              matchTableCellInlineToken source (parseFrom source fuel none []) inline = some token := by
            have hinline := hkept.1
            cases inline with
            | code text => cases hinline
            | image alt url => exact ⟨_, rfl⟩
            | autolink url => exact ⟨_, rfl⟩
            | entity name =>
              unfold keptInline at hinline
              unfold matchTableCellInlineToken
              dsimp only at hinline ⊢
              cases hdecoded : decodeTableCellEntity source name with
              | text text => exact ⟨_, rfl⟩
              | null =>
                rw [hdecoded] at hinline
                cases hinline
              | rangeError =>
                rw [hdecoded] at hinline
                cases hinline
            | nested wrap inner =>
              obtain ⟨children, hchildren⟩ := ih none [] inner hinline
              cases wrap <;>
                exact ⟨_, Option.map_eq_some_iff.mpr ⟨children, hchildren, rfl⟩⟩
          obtain ⟨token, htoken⟩ := htoken
          exact ⟨flush buffer ++ token :: later, by
            simp only [htoken, hlater, Option.bind_eq_bind, Option.bind_some]⟩

/-- A cell is read back as it was exactly when its text is kept. -/
theorem renderedCell_iff (source : Units → Units) (normalizeLinkHref : Units → Option Units)
    (raw : Units) :
    renderedCell source normalizeLinkHref raw = some raw ↔ KeptText source raw := by
  unfold renderedCell parseTableCellInlineMarkdown KeptText
  constructor
  · intro h
    obtain ⟨tokens, hparse, hread⟩ := Option.map_eq_some_iff.mp h
    have hreads := parseFrom_reads normalizeLinkHref _ _ _ _ _ hparse
    rw [List.nil_append] at hreads
    cases hkept : keptFrom source (raw.length + 1) none raw with
    | true => rfl
    | false =>
      have hshorter := hreads.shorter hkept
      rw [hread] at hshorter
      exact absurd hshorter (lt_irrefl _)
  · intro hkept
    obtain ⟨tokens, hparse⟩ := parseFrom_isSome (raw.length + 1) none [] raw hkept
    have hreads := parseFrom_reads normalizeLinkHref _ _ _ _ _ hparse
    rw [List.nil_append] at hreads
    rw [hparse, Option.map_some, hreads.same hkept]

/-- The backslash of an escaped asterisk is gone. -/
theorem escape_lost : ¬ ∀ source normalizeLinkHref raw,
    renderedCell source normalizeLinkHref raw = some raw := by
  intro h
  have hread : renderedCell id (fun _ => none) (units "\\*") = some (units "*") := by decide +kernel
  rw [h] at hread
  exact absurd hread (by decide +kernel)

end Rounds

end Piclaw.TableCells
