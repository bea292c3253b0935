import Ember.Proofs.Ast.Stops

/-! Two readings of the same expression. Whatever is read from a stream that ends is read, in other
places, from a stream that goes on with a line break where the first one ends: no reader looks
beyond a line break that it may not skip, and after those that it may skip it fails at the end. -/
namespace Ember
set_option autoImplicit false

variable {w : Fork}

/-! ## Parameters -/

theorem parseParamsLoop_agrees {bound bound' : Nat} {s s' : Stream} {hlt : s.size < bound}
    {hlt' : s'.size < bound'} {found params : List String} {r : Stream} {hr : r.size < bound}
    (h : w.Alike s s') (hok : parseParamsLoop bound s hlt found = .ok ⟨params, r, hr⟩) :
    w.Reads (parseParamsLoop bound' s' hlt' found) params r := by
  rw [parseParamsLoop] at hok
  rw [parseParamsLoop, h.isNext]
  dsimp only at hok ⊢
  split at hok
  · rename_i hnext
    rw [if_pos hnext]
    split at hok
    · rename_i hclose
      cases hok
      obtain ⟨r', hr', hclose', hrest⟩ := h.expect hclose
      rw [hclose']
      exact ⟨r', Nat.lt_trans hr' hlt', rfl, hrest⟩
    · cases hok
  · rename_i hnext
    rw [if_neg hnext]
    split at hok
    · cases hok
    · rename_i name r₁ h₁ hident
      obtain ⟨r₁', h₁', hident', hrest⟩ := h.expectIdent hident
      rw [hident']
      dsimp only at hok ⊢
      split at hok
      · cases hok
      · rename_i hdouble
        rw [if_neg hdouble]
        have hskip := r₁.skipNewlines.2
        split at hok
        · rename_i hcomma
          split at hok
          · rename_i hclose
            cases hok
            have hnext := hrest.skipNewlines (Stream.peek_of_expect hclose)
            obtain ⟨r', hr', hclose', hrest'⟩ := hnext.expect hclose
            rw [hnext.eat?_none hcomma, hclose']
            exact ⟨r', _, rfl, hrest'⟩
          · cases hok
        · rename_i r₃ h₃ hcomma
          have hskip' := r₃.skipNewlines.2
          obtain ⟨r₃', h₃', hcomma', hrest'⟩ := hrest.skipNewlines_eat? hcomma
          rw [hcomma']
          exact parseParamsLoop_agrees
            (hrest'.skipNewlines fun hend => parseParamsLoop_end hend hok) hok
termination_by s.size
decreasing_by all_goals omega

theorem parseParams_agrees {s s' : Stream} {params : List String} {r : Stream}
    {hr : r.size < s.size} (h : w.Alike s s') (hok : parseParams s = .ok ⟨params, r, hr⟩) :
    w.Reads (parseParams s') params r := by
  unfold parseParams at hok
  split at hok
  · cases hok
  · rename_i r₁ h₁ hopen
    obtain ⟨r₁', h₁', hopen', hrest⟩ := h.expect hopen
    dsimp only at hok
    rw [parseParams, hopen']
    exact parseParamsLoop_agrees
      (hrest.skipNewlines fun hend => parseParamsLoop_end hend hok) hok

/-! ## Expressions -/

/-- The readings agree on streams of fewer than `n` tokens. -/
structure Fork.Upto (w : Fork) (n : Nat) : Prop where
  unary : ∀ {s s' : Stream} {e : Expr} {r : Stream} {hr : r.size < s.size}, s.size < n →
    w.Alike s s' → parseUnary s = .ok ⟨e, r, hr⟩ → w.Reads (parseUnary s') (e.moved w.move) r
  binary : ∀ (least : Nat) {s s' : Stream} {e : Expr} {r : Stream} {hr : r.size < s.size},
    s.size < n → w.Alike s s' → parseBinary least s = .ok ⟨e, r, hr⟩ →
    w.Reads (parseBinary least s') (e.moved w.move) r
  statement : ∀ {s s' : Stream} {st : Stmt} {r : Stream} {hr : r.size < s.size}, s.size < n →
    w.Alike s s' → parseStatement s = .ok ⟨st, r, hr⟩ →
    w.Reads (parseStatement s') (st.moved w.move) r

section
variable {n : Nat} (ih : w.Upto n)
include ih

theorem Fork.Upto.binary_after (least : Nat) {s s' : Stream} {e : Expr} {r : Stream}
    {hr : r.size < s.skipNewlines.1.size} (hn : s.skipNewlines.1.size < n) (h : w.Alike s s')
    (hok : parseBinary least s.skipNewlines.1 = .ok ⟨e, r, hr⟩) :
    w.Reads (parseBinary least s'.skipNewlines.1) (e.moved w.move) r :=
  ih.binary least hn (h.skipNewlines fun hend => parseBinary_end hend hok) hok

theorem parseItems_agrees {close : Mark} {context : String} {bound bound' : Nat} {s s' : Stream}
    {hlt : s.size < bound} {hlt' : s'.size < bound'} {found items : List Expr} {r : Stream}
    {hr : r.size < bound} (hn : s.size < n) (h : w.Alike s s')
    (hok : parseItems close context bound s hlt found = .ok ⟨items, r, hr⟩) :
    w.Reads (parseItems close context bound' s' hlt' (found.map (·.moved w.move)))
      (items.map (·.moved w.move)) r := by
  rw [parseItems] at hok
  split at hok
  · rename_i r₁ h₁ heat
    cases hok
    obtain ⟨r₁', h₁', heat', hrest⟩ := h.eat?_some heat
    rw [parseItems, heat', List.map_reverse]
    exact ⟨r₁', _, rfl, hrest⟩
  · rename_i heat
    split at hok
    · cases hok
    · rename_i item r₁ h₁ hitem
      obtain ⟨r₁', h₁', hitem', hrest⟩ := ih.binary 1 (by omega) h hitem
      rw [parseItems, h.eat?_none heat]
      dsimp only
      rw [hitem']
      have hskip := r₁.skipNewlines.2
      dsimp only at hok ⊢
      split at hok
      · rename_i r₃ h₃ hcomma
        have hskip' := r₃.skipNewlines.2
        obtain ⟨r₃', h₃', hcomma', hrest'⟩ := hrest.skipNewlines_eat? hcomma
        rw [hcomma']
        exact parseItems_agrees (by omega)
          (hrest'.skipNewlines fun hend => parseItems_end hend hok) hok
      · rename_i hcomma
        split at hok
        · cases hok
        · rename_i r₃ h₃ hclose
          cases hok
          -- The closing delimiter is there, so the line breaks before it are shared.
          have hnext := hrest.skipNewlines (Stream.peek_of_expect hclose)
          obtain ⟨r₃', h₃', hclose', hlast⟩ := hnext.expect hclose
          rw [hnext.eat?_none hcomma, hclose', List.map_reverse]
          exact ⟨r₃', _, rfl, hlast⟩
termination_by s.size
decreasing_by all_goals omega

theorem parseEntries_agrees {bound bound' : Nat} {s s' : Stream} {hlt : s.size < bound}
    {hlt' : s'.size < bound'} {found entries : List (Expr × Expr)} {r : Stream}
    {hr : r.size < bound} (hn : s.size ≤ n) (h : w.Alike s s')
    (hok : parseEntries bound s hlt found = .ok ⟨entries, r, hr⟩) :
    w.Reads (parseEntries bound' s' hlt'
        (found.map fun e => (e.1.moved w.move, e.2.moved w.move)))
      (entries.map fun e => (e.1.moved w.move, e.2.moved w.move)) r := by
  rw [parseEntries] at hok
  rw [parseEntries]
  split at hok
  · rename_i hcomma
    split at hok
    · cases hok
    · rename_i r₁ h₁ hclose
      cases hok
      obtain ⟨r₁', h₁', hclose', hrest⟩ := h.expect hclose
      rw [h.eat?_none hcomma]
      dsimp only
      rw [hclose', List.map_reverse]
      exact ⟨r₁', _, rfl, hrest⟩
  · rename_i r₁ h₁ hcomma
    obtain ⟨r₁', h₁', hcomma', hrest⟩ := h.eat?_some hcomma
    rw [hcomma']
    have hskip := r₁.skipNewlines.2
    dsimp only at hok ⊢
    split at hok
    · rename_i r₃ h₃ hclose
      cases hok
      obtain ⟨r₃', h₃', hclose', hlast⟩ := hrest.skipNewlines_eat? hclose
      rw [hclose', List.map_reverse]
      exact ⟨r₃', _, rfl, hlast⟩
    · rename_i hclose
      split at hok
      · cases hok
      · rename_i key r₃ h₃ hkey
        have hnext := hrest.skipNewlines fun hend => parseBinary_end hend hkey
        obtain ⟨r₃', h₃', hkey', hrest'⟩ := ih.binary 1 (by omega) hnext hkey
        rw [hnext.eat?_none hclose]
        dsimp only
        rw [hkey']
        dsimp only
        have hskip' := r₃.skipNewlines.2
        split at hok
        · cases hok
        · rename_i r₅ h₅ hcolon
          have hskip'' := r₅.skipNewlines.2
          obtain ⟨r₅', h₅', hcolon', hrest''⟩ := hrest'.skipNewlines_expect hcolon
          rw [hcolon']
          dsimp only
          split at hok
          · cases hok
          · rename_i value r₇ h₇ hvalue
            obtain ⟨r₇', h₇', hvalue', hlast⟩ := ih.binary_after 1 (by omega) hrest'' hvalue
            rw [hvalue']
            have hskip''' := r₇.skipNewlines.2
            exact parseEntries_agrees (by omega)
              (hlast.skipNewlines fun hend => parseEntries_end hend hok) hok
termination_by s.size
decreasing_by all_goals omega

theorem parseBraces_agrees (span : Span) {s s' : Stream} {e : Expr} {r : Stream}
    {hr : r.size < s.size} (hn : s.size < n) (h : w.Alike s s')
    (hok : parseBraces span s = .ok ⟨e, r, hr⟩) :
    w.Reads (parseBraces (w.move span) s') (e.moved w.move) r := by
  rw [parseBraces] at hok
  rw [parseBraces]
  have hskip := s.skipNewlines.2
  dsimp only at hok ⊢
  split at hok
  · rename_i r₂ h₂ heat
    cases hok
    obtain ⟨r₂', h₂', heat', hrest⟩ := h.skipNewlines_eat? heat
    rw [heat']
    exact ⟨r₂', _, rfl, hrest⟩
  · rename_i heat
    split at hok
    · cases hok
    · rename_i first r₂ h₂ hfirst
      have hnext := h.skipNewlines fun hend => parseBinary_end hend hfirst
      obtain ⟨r₂', h₂', hfirst', hrest⟩ := ih.binary 1 (by omega) hnext hfirst
      rw [hnext.eat?_none heat]
      dsimp only
      rw [hfirst']
      dsimp only
      have hskip' := r₂.skipNewlines.2
      split at hok
      · rename_i r₄ h₄ hcolon
        have hskip'' := r₄.skipNewlines.2
        obtain ⟨r₄', h₄', hcolon', hrest'⟩ := hrest.skipNewlines_eat? hcolon
        rw [hcolon']
        dsimp only
        split at hok
        · cases hok
        · rename_i value r₆ h₆ hvalue
          obtain ⟨r₆', h₆', hvalue', hrest''⟩ := ih.binary_after 1 (by omega) hrest' hvalue
          rw [hvalue']
          dsimp only
          have hskip''' := r₆.skipNewlines.2
          split at hok
          · cases hok
          · rename_i entries r₈ h₈ hentries
            cases hok
            have hmore := hrest''.skipNewlines fun hend => parseEntries_end hend hentries
            split
            · rename_i herror
              exact absurd herror ((parseEntries_agrees ih (by omega) hmore hentries).ne_error _)
            · rename_i entries' r₈' h₈' hentries'
              obtain ⟨rfl, hlast⟩ :=
                (parseEntries_agrees ih (by omega) hmore hentries).of_eq hentries'
              rw [← movedEntries_eq_map]
              exact ⟨r₈', h₈', rfl, hlast⟩
      · rename_i hcolon
        split at hok
        · rename_i r₄ h₄ hcomma
          have hskip'' := r₄.skipNewlines.2
          have hnext' := hrest.skipNewlines (Stream.peek_of_eat? hcomma)
          obtain ⟨r₄', h₄', hcomma', hrest'⟩ := hnext'.eat?_some hcomma
          rw [hnext'.eat?_none hcolon]
          dsimp only
          rw [hcomma']
          dsimp only
          split at hok
          · cases hok
          · rename_i items r₆ h₆ hitems
            cases hok
            have hmore := hrest'.skipNewlines fun hend => parseItems_end hend hitems
            split
            · rename_i herror
              exact absurd herror ((parseItems_agrees ih (by omega) hmore hitems).ne_error _)
            · rename_i items' r₆' h₆' hitems'
              obtain ⟨rfl, hlast⟩ := (parseItems_agrees ih (by omega) hmore hitems).of_eq hitems'
              rw [← movedItems_eq_map]
              exact ⟨r₆', h₆', rfl, hlast⟩
        · rename_i hcomma
          split at hok
          · cases hok
          · rename_i r₄ h₄ hclose
            cases hok
            have hnext' := hrest.skipNewlines (Stream.peek_of_expect hclose)
            obtain ⟨r₄', h₄', hclose', hlast⟩ := hnext'.expect hclose
            rw [hnext'.eat?_none hcolon]
            dsimp only
            rw [hnext'.eat?_none hcomma, hclose']
            exact ⟨r₄', _, rfl, hlast⟩

theorem parseBlockLoop_agrees {bound bound' : Nat} {s s' : Stream} {hlt : s.size < bound}
    {hlt' : s'.size < bound'} {found body : List Stmt} {r : Stream} {hr : r.size < bound}
    (hn : s.size < n) (h : w.Alike s s')
    (hok : parseBlockLoop bound s hlt found = .ok ⟨body, r, hr⟩) :
    w.Reads (parseBlockLoop bound' s' hlt' (found.map (·.moved w.move)))
      (body.map (·.moved w.move)) r := by
  rw [parseBlockLoop] at hok
  rw [parseBlockLoop]
  have hskip := s.skipSeparators.2
  dsimp only at hok ⊢
  split at hok
  · rename_i r₂ h₂ hclose
    cases hok
    obtain ⟨r₂', h₂', hclose', hrest⟩ :=
      (h.skipSeparators (Stream.peek_of_eat? hclose)).eat?_some hclose
    rw [hclose', List.map_reverse]
    exact ⟨r₂', _, rfl, hrest⟩
  · rename_i hclose
    split at hok
    · cases hok
    · rename_i hpeek
      have hnext := h.skipSeparators hpeek
      rw [hnext.eat?_none hclose]
      dsimp only
      split at hok
      · cases hok
      · rename_i st r₂ h₂ hst
        obtain ⟨r₂', h₂', hst', hrest⟩ := ih.statement (by omega) hnext hst
        split at hok
        · cases hok
        · rename_i r₃ h₃ hend
          obtain ⟨r₃', h₃', hend', hlast⟩ := hrest.endStatement hend
          -- A block that is read to its brace does not end where the stream does.
          have hlast := hlast.resolve_right fun hpast => parseBlockLoop_end hpast.1 hok
          split
          · rename_i hpeek'
            exact absurd hpeek' (hnext.of_peek (P := (· ≠ .eof)) hpeek (by simp))
          · rw [hst']
            dsimp only
            rw [hend']
            exact parseBlockLoop_agrees (by omega) hlast hok
termination_by s.size
decreasing_by all_goals omega

theorem parseBlock_agrees {s s' : Stream} {body : List Stmt} {r : Stream} {hr : r.size < s.size}
    (hn : s.size ≤ n) (h : w.Alike s s') (hok : parseBlock s = .ok ⟨body, r, hr⟩) :
    w.Reads (parseBlock s') (body.map (·.moved w.move)) r := by
  rw [parseBlock] at hok
  split at hok
  · cases hok
  · rename_i r₁ h₁ hopen
    obtain ⟨r₁', h₁', hopen', hrest⟩ := h.expect hopen
    rw [parseBlock, hopen']
    exact parseBlockLoop_agrees ih (by omega) hrest hok

theorem parsePrimary_agrees {s s' : Stream} {e : Expr} {r : Stream} {hr : r.size < s.size}
    (hn : s.size ≤ n) (h : w.Alike s s') (hok : parsePrimary s = .ok ⟨e, r, hr⟩) :
    w.Reads (parsePrimary s') (e.moved w.move) r := by
  have hs : s.peek ≠ .eof := fun hend => parsePrimary_end hend hok
  rw [parsePrimary] at hok
  split at hok
  · cases hok
  · rename_i t rest htokens
    obtain ⟨token, span⟩ := t
    rw [Stream.peek_of_tokens htokens] at hs
    obtain ⟨rest', last', rfl, hnext⟩ := h.next htokens hs
    have hrest := hnext (some span) (some (w.move span))
    have hsize := s.size_tail htokens (some span)
    have hskip := (Stream.skipNewlines ⟨rest, some span⟩).2
    rw [parsePrimary]
    dsimp only at hok ⊢
    split at hok
    · split at hok
      · rename_i hsmall
        cases hok
        rw [if_pos hsmall]
        exact ⟨_, _, rfl, hrest⟩
      · cases hok
    · cases hok
      exact ⟨_, _, rfl, hrest⟩
    · cases hok
      exact ⟨_, _, rfl, hrest⟩
    · cases hok
      exact ⟨_, _, rfl, hrest⟩
    · cases hok
      exact ⟨_, _, rfl, hrest⟩
    · cases hok
      exact ⟨_, _, rfl, hrest⟩
    · cases hok
      exact ⟨_, _, rfl, hrest⟩
    · split at hok
      · cases hok
      · rename_i inner r₂ h₃ hinner
        obtain ⟨r₂', h₃', hinner', hrest'⟩ := ih.binary_after 1 (by omega) hrest hinner
        rw [hinner']
        dsimp only
        split at hok
        · cases hok
        · rename_i r₄ h₅ hclose
          cases hok
          obtain ⟨r₄', h₅', hclose', hlast⟩ := hrest'.skipNewlines_expect hclose
          rw [hclose']
          exact ⟨r₄', _, rfl, hlast⟩
    · split at hok
      · cases hok
      · rename_i items r₂ h₃ hitems
        cases hok
        have hfirst := hrest.skipNewlines fun hend => parseItems_end hend hitems
        split
        · rename_i herror
          exact absurd herror ((parseItems_agrees ih (by omega) hfirst hitems).ne_error _)
        · rename_i items' r₂' h₃' hitems'
          obtain ⟨rfl, hlast⟩ := (parseItems_agrees ih (by omega) hfirst hitems).of_eq hitems'
          rw [← movedItems_eq_map]
          exact ⟨r₂', h₃', rfl, hlast⟩
    · split at hok
      · cases hok
      · rename_i braces r₁ h₂ hbraces
        cases hok
        obtain ⟨r₁', h₂', hbraces', hlast⟩ := parseBraces_agrees ih span (by omega) hrest hbraces
        rw [hbraces']
        exact ⟨r₁', _, rfl, hlast⟩
    · split at hok
      · cases hok
      · rename_i params r₁ h₂ hparams
        have h₂ : r₁.size < Stream.size ⟨rest, some span⟩ := h₂
        obtain ⟨r₁', h₂', hparams', hrest'⟩ := parseParams_agrees hrest hparams
        rw [hparams']
        dsimp only
        split at hok
        · cases hok
        · rename_i body r₂ h₃ hbody
          cases hok
          obtain ⟨r₂', h₃', hbody', hlast⟩ := parseBlock_agrees ih (by omega) hrest' hbody
          rw [hbody', ← movedBody_eq_map]
          exact ⟨r₂', _, rfl, hlast⟩
    · cases hok

theorem parsePostfixLoop_agrees {bound bound' : Nat} {object e : Expr} {s s' : Stream}
    {hlt : s.size < bound} {hlt' : s'.size < bound'} {r : Stream} {hr : r.size < bound}
    (hn : s.size ≤ n) (h : w.Alike s s')
    (hok : parsePostfixLoop bound object s hlt = .ok ⟨e, r, hr⟩) :
    w.Reads (parsePostfixLoop bound' (object.moved w.move) s' hlt') (e.moved w.move) r := by
  rw [parsePostfixLoop] at hok
  split at hok
  · rename_i htokens
    cases hok
    exact h.stops_postfix (by simp [Stream.peek_of_nil htokens])
  · rename_i t rest htokens
    obtain ⟨token, span⟩ := t
    have hpeek : s.peek = token := Stream.peek_of_tokens htokens
    have hsize := s.size_tail htokens (some span)
    have hskip := (Stream.skipNewlines ⟨rest, some span⟩).2
    dsimp only at hok
    split at hok
    · obtain ⟨rest', last', rfl, hnext⟩ := h.next htokens (by simp)
      have hrest := hnext (some span) (some (w.move span))
      rw [parsePostfixLoop]
      dsimp only
      split at hok
      · cases hok
      · rename_i args r₂ h₂ hargs
        have hfirst := hrest.skipNewlines fun hend => parseItems_end hend hargs
        split
        · rename_i herror
          exact absurd herror ((parseItems_agrees ih (by omega) hfirst hargs).ne_error _)
        · rename_i args' r₂' h₂' hargs'
          obtain ⟨rfl, hlast⟩ := (parseItems_agrees ih (by omega) hfirst hargs).of_eq hargs'
          rw [← movedItems_eq_map]
          exact parsePostfixLoop_agrees (by omega) hlast hok
    · obtain ⟨rest', last', rfl, hnext⟩ := h.next htokens (by simp)
      have hrest := hnext (some span) (some (w.move span))
      rw [parsePostfixLoop]
      dsimp only
      split at hok
      · cases hok
      · rename_i key r₂ h₂ hkey
        obtain ⟨r₂', h₂', hkey', hrest'⟩ := ih.binary_after 1 (by omega) hrest hkey
        rw [hkey']
        dsimp only
        have hskip' := r₂.skipNewlines.2
        split at hok
        · cases hok
        · rename_i r₄ h₄ hclose
          obtain ⟨r₄', h₄', hclose', hlast⟩ := hrest'.skipNewlines_expect hclose
          rw [hclose']
          exact parsePostfixLoop_agrees (by omega) hlast hok
    · obtain ⟨rest', last', rfl, hnext⟩ := h.next htokens (by simp)
      have hrest := hnext (some span) (some (w.move span))
      rw [parsePostfixLoop]
      dsimp only
      split at hok
      · cases hok
      · rename_i name r₁ h₁ hname
        have h₁ : r₁.size < Stream.size ⟨rest, some span⟩ := h₁
        obtain ⟨r₁', h₁', hname', hrest'⟩ := hrest.expectIdent hname
        rw [hname']
        exact parsePostfixLoop_agrees (by omega) hrest' hok
    · rename_i hcall hindex hattr
      cases hok
      exact h.stops_postfix (by rw [hpeek]; exact ⟨hcall, hindex, hattr⟩)
termination_by s.size
decreasing_by all_goals omega

theorem parsePostfix_agrees {s s' : Stream} {e : Expr} {r : Stream} {hr : r.size < s.size}
    (hn : s.size ≤ n) (h : w.Alike s s') (hok : parsePostfix s = .ok ⟨e, r, hr⟩) :
    w.Reads (parsePostfix s') (e.moved w.move) r := by
  rw [parsePostfix] at hok
  split at hok
  · cases hok
  · rename_i object r₁ h₁ hobject
    obtain ⟨r₁', h₁', hobject', hrest⟩ := parsePrimary_agrees ih hn h hobject
    rw [parsePostfix, hobject']
    exact parsePostfixLoop_agrees ih (by omega) hrest hok

theorem parsePower_agrees {s s' : Stream} {e : Expr} {r : Stream} {hr : r.size < s.size}
    (hn : s.size ≤ n) (h : w.Alike s s') (hok : parsePower s = .ok ⟨e, r, hr⟩) :
    w.Reads (parsePower s') (e.moved w.move) r := by
  rw [parsePower] at hok
  split at hok
  · cases hok
  · rename_i base r₁ h₁ hbase
    obtain ⟨r₁', h₁', hbase', hrest⟩ := parsePostfix_agrees ih hn h hbase
    rw [parsePower, hbase']
    dsimp only
    split at hok
    · rename_i heat
      cases hok
      rw [hrest.eat?_none heat]
      exact ⟨r₁', h₁', rfl, hrest⟩
    · rename_i r₂ h₂ heat
      have hskip := r₂.skipNewlines.2
      obtain ⟨r₂', h₂', heat', hrest'⟩ := hrest.eat?_some heat
      rw [heat', hrest.span (Stream.peek_of_eat? heat)]
      dsimp only at hok ⊢
      split at hok
      · cases hok
      · rename_i exponent r₄ h₄ hexponent
        cases hok
        obtain ⟨r₄', h₄', hexponent', hlast⟩ := ih.unary (by omega)
          (hrest'.skipNewlines fun hend => parseUnary_end hend hexponent) hexponent
        rw [hexponent']
        exact ⟨r₄', _, rfl, hlast⟩

theorem parseUnary_agrees {s s' : Stream} {e : Expr} {r : Stream} {hr : r.size < s.size}
    (hn : s.size ≤ n) (h : w.Alike s s') (hok : parseUnary s = .ok ⟨e, r, hr⟩) :
    w.Reads (parseUnary s') (e.moved w.move) r := by
  have hs : s.peek ≠ .eof := fun hend => parseUnary_end hend hok
  rw [parseUnary] at hok
  split at hok
  · rename_i htokens
    exact absurd (Stream.peek_of_nil htokens) hs
  · rename_i t rest htokens
    rw [Stream.peek_of_tokens htokens] at hs
    split at hok
    · rename_i hop
      obtain ⟨r', hr', hpower, hrest⟩ := parsePower_agrees ih hn h hok
      obtain ⟨rest', last', rfl, -⟩ := h.next htokens hs
      rw [parseUnary]
      dsimp only
      rw [hop]
      exact ⟨r', hr', hpower, hrest⟩
    · rename_i op hop
      obtain ⟨rest', last', rfl, hnext⟩ := h.next htokens hs
      have hsize := s.size_tail htokens (some t.span)
      have hrest := hnext (some t.span) (some (w.move t.span))
      rw [parseUnary]
      dsimp only at hok ⊢
      rw [hop]
      dsimp only
      rw [hrest.isLeastLiteral]
      split at hok
      · rename_i hleast
        rw [if_pos hleast]
        obtain ⟨-, hinteger, -⟩ := isLeastLiteral_iff.1 hleast
        obtain _ | ⟨u, rest⟩ := rest
        · cases hinteger
        · cases hok
          have hu : u.token ≠ .eof := by
            simp [show u.token = .integer leastMagnitude from hinteger]
          obtain ⟨rest', _, ⟨⟩, hlast⟩ := hrest.next rfl hu
          exact ⟨_, _, rfl, hlast _ _⟩
      · rename_i hleast
        rw [if_neg hleast]
        split at hok
        · cases hok
        · rename_i operand r₂ h₂ hoperand
          cases hok
          obtain ⟨r₂', h₂', hoperand', hlast⟩ := ih.unary (by omega) hrest hoperand
          rw [hoperand']
          exact ⟨r₂', _, rfl, hlast⟩

theorem parseBinaryLoop_agrees {bound bound' : Nat} (least : Nat) {left e : Expr} {s s' : Stream}
    {hlt : s.size < bound} {hlt' : s'.size < bound'} {r : Stream} {hr : r.size < bound}
    (hn : s.size ≤ n) (h : w.Alike s s')
    (hok : parseBinaryLoop bound least left s hlt = .ok ⟨e, r, hr⟩) :
    w.Reads (parseBinaryLoop bound' least (left.moved w.move) s' hlt') (e.moved w.move) r := by
  rw [parseBinaryLoop] at hok
  split at hok
  · rename_i htokens
    cases hok
    exact h.stops_binary (by simp [Stream.peek_of_nil htokens, binding?])
  · rename_i t rest htokens
    have hpeek := Stream.peek_of_tokens htokens
    split at hok
    · rename_i hbinding
      cases hok
      exact h.stops_binary (by simp [hpeek, hbinding])
    · rename_i strength joint hbinding
      split at hok
      · rename_i hweak
        cases hok
        refine h.stops_binary ?_
        rw [hpeek, hbinding]
        rintro _ _ ⟨⟩
        exact hweak
      · rename_i hstrong
        have ht : t.token ≠ .eof := by
          intro heof
          rw [heof] at hbinding
          cases hbinding
        obtain ⟨rest', last', rfl, hnext⟩ := h.next htokens ht
        have hsize := s.size_tail htokens (some t.span)
        have hskip := (Stream.skipNewlines ⟨rest, some t.span⟩).2
        dsimp only at hok
        split at hok
        · cases hok
        · rename_i right r₂ h₂ hright
          have hfirst := hnext (some t.span) (some (w.move t.span))
          obtain ⟨r₂', h₂', hright', hrest⟩ :=
            ih.binary_after (strength + 1) (by omega) hfirst hright
          rw [parseBinaryLoop]
          dsimp only
          rw [hbinding]
          dsimp only
          rw [if_neg hstrong, hright']
          dsimp only
          rw [← Joint.moved_node]
          exact parseBinaryLoop_agrees least (by omega) hrest hok
termination_by s.size
decreasing_by all_goals omega

theorem parseBinary_agrees (least : Nat) {s s' : Stream} {e : Expr} {r : Stream}
    {hr : r.size < s.size} (hn : s.size ≤ n) (h : w.Alike s s')
    (hok : parseBinary least s = .ok ⟨e, r, hr⟩) :
    w.Reads (parseBinary least s') (e.moved w.move) r := by
  rw [parseBinary] at hok
  split at hok
  · cases hok
  · rename_i left r₁ h₁ hleft
    obtain ⟨r₁', h₁', hleft', hrest⟩ := parseUnary_agrees ih hn h hleft
    rw [parseBinary, hleft']
    exact parseBinaryLoop_agrees ih least (by omega) hrest hok

end

end Ember
