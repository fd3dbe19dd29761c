import Monitostr.Nip19.RoundTrip
import Monitostr.Nip19.TypoSafety
import Monitostr.Ui.CommandBranches
import Monitostr.Utils.SamplePlatform
import Monitostr.Utils.Words

/-! # Private keys on the command line

A private key in a command is too long for the commands that are recognised by their whole text. Of the other
branches only that of `auth` logs nothing of what was typed.
-/

namespace Monitostr.Ui
open Model Nip19
set_option autoImplicit false

/-! ## What a private key looks like -/

theorem isSpace_of_known {c : UInt8} (h : 0 ≤ charToValue c) : isSpace c = false := by
  by_cases h0 : c = 0
  · rw [h0]
    rfl
  · have hall : kCharset.all (fun c => !isSpace c) = true := by
      rw [kCharset_bytes]
      rfl
    obtain ⟨p, -, hplace⟩ := getElem?_of_charToValue h h0
    simpa using List.all_eq_true.mp hall c (List.mem_of_getElem? hplace)

/-- What the decoder promises of an accepted private key. -/
structure IsSecret (secret : Str) : Prop where
  length : secret.length = 63
  noSpace : ∀ c ∈ secret, isSpace c = false
  first : ∃ c rest, secret = c :: rest ∧ toLower c = 110

theorem isSecret_of_ok {secret : Str} (h : (decodeNsecToHex secret).ok = true) : IsSecret secret := by
  obtain ⟨bytes, hdecode, hlength, -⟩ := decodeNsecToHex_ok h
  obtain ⟨chars, hframed, -, hconvert, -⟩ := decodeBech32_32Bytes_ok_iff.mp hdecode
  have hnormal := hframed.normal
  have hcount := convertBits_symbols_length hlength (convertBits_inverse.mp hconvert)
  rw [List.length_take, List.length_map] at hcount
  refine ⟨?_, ?_, ?_⟩
  · have htotal := congrArg List.length hnormal
    have hsix := hframed.six
    rw [toLowerCopy, List.length_map, List.length_append, List.length_cons] at htotal
    have hhrp : (lit "nsec").length = 4 := rfl
    omega
  · intro c hc
    have hmem : toLower c ∈ lit "nsec" ++ 49 :: chars := by
      rw [← hnormal]
      exact List.mem_map_of_mem hc
    rw [← isSpace_toLower]
    rcases List.mem_append.mp hmem with hhrp | hrest
    · have hall : (lit "nsec").all (fun c => !isSpace c) = true := rfl
      simpa using List.all_eq_true.mp hall _ hhrp
    · rcases List.mem_cons.mp hrest with h49 | hchar
      · rw [h49]
        rfl
      · exact isSpace_of_known (hframed.known _ hchar)
  · cases secret with
    | nil => exact absurd hnormal.symm (List.append_ne_nil_of_left_ne_nil (by decide) _)
    | cons c rest => exact ⟨c, rest, rfl, (List.cons.inj hnormal).1⟩

theorem IsSecret.ne_nil {secret : Str} (h : IsSecret secret) : secret ≠ [] := by
  obtain ⟨c, rest, rfl, -⟩ := h.first
  exact List.cons_ne_nil c rest

/-! ## Where a private key in a command goes -/

section Secret
variable {secret rawCommand : Str} (h : IsSecret secret) (hmem : secret <:+: rawCommand)
include h hmem

theorem secret_infix_trimCopy : secret <:+: trimCopy rawCommand :=
  infix_trimCopy h.ne_nil h.noSpace hmem

/-- A command with a private key in it is no command of a fixed text. -/
theorem not_isExact_of_secret : ¬IsExact (toLowerCopy (trimCopy rawCommand)) := by
  rintro ⟨entry, hentry, heq⟩
  have hshort : ∀ entry ∈ exactCommands, entry.1.length < 63 := by decide
  have hlength := (secret_infix_trimCopy h hmem).length_le
  have hcmd := congrArg List.length heq
  rw [toLowerCopy, List.length_map] at hcmd
  have hlt := hshort entry hentry
  rw [h.length, hcmd] at hlength
  omega

/-- The argument of a command without an `n` in its name has the private key in it. -/
theorem secret_infix_argument {name : Str} (hname : name.all (fun c => c != 110) = true)
    (hstarts : startsWith (toLowerCopy (trimCopy rawCommand)) name = true) :
    secret <:+: argument (trimCopy rawCommand) name.length := by
  have htrim := secret_infix_trimCopy h hmem
  rw [argument]
  have hpre : name <+: toLowerCopy (trimCopy rawCommand) := List.isPrefixOf_iff_prefix.mp hstarts
  have hdrop : secret <:+: (trimCopy rawCommand).drop name.length := by
    rw [← List.take_append_drop name.length (trimCopy rawCommand)] at htrim
    refine infix_of_append h.ne_nil (fun c hc hhead => ?_) htrim
    obtain ⟨d, rest, rfl, hd⟩ := h.first
    obtain rfl := Option.some.inj hhead
    have hlower : toLower d ∈ name := by
      rw [List.prefix_iff_eq_take.mp hpre, toLowerCopy, ← List.map_take]
      exact List.mem_map_of_mem hc
    have hne := List.all_eq_true.mp hname _ hlower
    rw [hd] at hne
    exact absurd hne (by decide)
  have hlong := hdrop.length_le
  rw [h.length, List.length_drop] at hlong
  rw [if_pos (by omega)]
  exact infix_trimCopy h.ne_nil h.noSpace hdrop

end Secret

section Echo
variable (desktop : Desktop) (state : CommandState) (logBuffer : Option LogBuffer)
  (callbacks : CommandCallbacks) (rawCommand : Str)

/-- No line that the command logs has a private key in it that was typed. -/
def KeepsSecrets : Prop :=
  ∀ secret, secret <:+: rawCommand → (decodeNsecToHex secret).ok = true →
    ∀ level message,
      CommandEffect.log level message ∈
          (executeCommand desktop state logBuffer callbacks rawCommand).2 →
        ¬secret <:+: message

variable {desktop state logBuffer callbacks rawCommand} {secret : Str} (h : IsSecret secret)
  (hmem : secret <:+: rawCommand)
include h hmem

/-- The branch of a command with a private key in it. -/
theorem commandBranch_of_secret :
    commandBranch (toLowerCopy (trimCopy rawCommand)) =
      if startsWith (toLowerCopy (trimCopy rawCommand)) (lit "filter") then .filter
      else if startsWith (toLowerCopy (trimCopy rawCommand)) (lit "wlogs") then .wlogs
      else if startsWith (toLowerCopy (trimCopy rawCommand)) (lit "auth") then .auth
      else .unknown := by
  have hne : toLowerCopy (trimCopy rawCommand) ≠ [] := by
    intro hnil
    have hlength := (secret_infix_trimCopy h hmem).length_le
    rw [List.map_eq_nil_iff.mp hnil, h.length] at hlength
    exact absurd hlength (by decide)
  rw [commandBranch_of_not_exact (not_isExact_of_secret h hmem), if_pos hne]

/-- Outside of the auth branch the private key is logged. -/
theorem secret_logged {log : LogBuffer}
    (hauth : startsWith (toLowerCopy (trimCopy rawCommand)) (lit "auth") = false) :
    ∃ level message, CommandEffect.log level message ∈
        (executeCommand desktop state (some log) callbacks rawCommand).2 ∧ secret <:+: message := by
  have hbranch := commandBranch_of_secret h hmem
  rw [hauth, if_neg Bool.false_ne_true] at hbranch
  have hnonempty : ∀ {text : Str}, secret <:+: text → text ≠ [] := by
    rintro text hinfix rfl
    exact h.ne_nil (List.infix_nil.mp hinfix)
  cases hfilter : startsWith (toLowerCopy (trimCopy rawCommand)) (lit "filter") with
  | true =>
    rw [hfilter, if_pos rfl] at hbranch
    have hpattern : secret <:+: argument (trimCopy rawCommand) 6 :=
      secret_infix_argument h hmem rfl hfilter
    have hclear : ¬(argument (trimCopy rawCommand) 6 = [] ∨
        toLowerCopy (argument (trimCopy rawCommand) 6) = lit "clear") := by
      rintro (hnil | hclear)
      · exact hnonempty hpattern hnil
      · have hlength := hpattern.length_le
        have hfive := congrArg List.length hclear
        rw [toLowerCopy, List.length_map] at hfive
        rw [h.length] at hlength
        rw [hfive] at hlength
        exact absurd hlength (by decide)
    rw [executeCommand_filter hbranch, filterCommand, if_neg hclear]
    refine ⟨.info, _, List.mem_singleton_self _, hpattern.trans ?_⟩
    exact (List.suffix_append _ _).isInfix
  | false =>
    rw [hfilter, if_neg Bool.false_ne_true] at hbranch
    cases hwlogs : startsWith (toLowerCopy (trimCopy rawCommand)) (lit "wlogs") with
    | true =>
      rw [hwlogs, if_pos rfl] at hbranch
      have hpath : secret <:+: argument (trimCopy rawCommand) 5 :=
        secret_infix_argument h hmem rfl hwlogs
      rw [executeCommand_wlogs hbranch, wlogsCommand, if_neg (hnonempty hpath)]
      dsimp only
      split
      · refine ⟨.info, _, List.mem_cons_of_mem _ (List.mem_singleton_self _), hpath.trans ?_⟩
        exact (List.suffix_append _ _).isInfix
      · refine ⟨.error, _, List.mem_cons_of_mem _ (List.mem_singleton_self _), hpath.trans ?_⟩
        exact (List.suffix_append _ _).isInfix
    | false =>
      rw [hwlogs, if_neg Bool.false_ne_true] at hbranch
      rw [executeCommand_unknown hbranch]
      refine ⟨.warn, _, List.mem_singleton_self _, hmem.trans ?_⟩
      exact (List.suffix_append _ _).isInfix

/-- The auth branch logs no private key. -/
theorem secret_not_logged
    (hauth : startsWith (toLowerCopy (trimCopy rawCommand)) (lit "auth") = true)
    {level : LogLevel} {message : Str}
    (hlog : CommandEffect.log level message ∈
      (executeCommand desktop state logBuffer callbacks rawCommand).2) : ¬secret <:+: message := by
  have hother : ∀ name : Str, ¬lit "auth" <+: name → ¬name <+: lit "auth" →
      startsWith (toLowerCopy (trimCopy rawCommand)) name = false := by
    intro name hnot hnot'
    rw [← Bool.not_eq_true, startsWith, List.isPrefixOf_iff_prefix]
    intro hname
    rcases List.prefix_or_prefix_of_prefix (List.isPrefixOf_iff_prefix.mp hauth) hname with hpre | hpre
    · exact hnot hpre
    · exact hnot' hpre
  have hbranch := commandBranch_of_secret h hmem
  rw [hother (lit "filter") (by decide) (by decide), hother (lit "wlogs") (by decide) (by decide),
    hauth, if_neg Bool.false_ne_true, if_neg Bool.false_ne_true, if_pos rfl] at hbranch
  have harg : secret <:+: argument (trimCopy rawCommand) 4 := secret_infix_argument h hmem rfl hauth
  have hne : argument (trimCopy rawCommand) 4 ≠ [] := by
    intro hnil
    rw [hnil] at harg
    exact h.ne_nil (List.infix_nil.mp harg)
  rw [executeCommand_auth hbranch, authCommand, if_neg hne] at hlog
  dsimp only at hlog
  split at hlog
  · exact nomatch List.mem_singleton.mp hlog
  · unfold logLine at hlog
    cases logBuffer with
    | none => exact nomatch hlog
    | some log =>
      obtain ⟨-, rfl⟩ := CommandEffect.log.inj (List.mem_singleton.mp hlog)
      intro hinfix
      have hlength := hinfix.length_le
      rw [h.length] at hlength
      exact absurd hlength (by decide)

end Echo

/-- **Private keys in the log**: no private key that was typed is logged exactly when none was typed, there is no
log buffer, or the command starts with `auth`. -/
theorem keepsSecrets_iff (desktop : Desktop) (state : CommandState) (logBuffer : Option LogBuffer)
    (callbacks : CommandCallbacks) (rawCommand : Str) :
    KeepsSecrets desktop state logBuffer callbacks rawCommand ↔
      (∀ secret, secret <:+: rawCommand → (decodeNsecToHex secret).ok = false) ∨
        logBuffer = none ∨
        startsWith (toLowerCopy (trimCopy rawCommand)) (lit "auth") = true := by
  constructor
  · intro hkeeps
    cases hbuffer : logBuffer with
    | none => exact .inr (.inl rfl)
    | some log =>
      subst hbuffer
      cases hauth : startsWith (toLowerCopy (trimCopy rawCommand)) (lit "auth") with
      | true => exact .inr (.inr rfl)
      | false =>
        refine .inl fun secret hmem => ?_
        rw [← Bool.not_eq_true]
        intro hok
        obtain ⟨level, message, hlog, hinfix⟩ := @secret_logged desktop state callbacks
          rawCommand secret (isSecret_of_ok hok) hmem log hauth
        exact hkeeps secret hmem hok level message hlog hinfix
  · rintro (hnone | rfl | hauth) secret hmem hok level message hlog
    · rw [hnone secret hmem] at hok
      exact absurd hok Bool.false_ne_true
    · exact absurd hlog log_not_mem_of_no_buffer
    · exact secret_not_logged (isSecret_of_ok hok) hmem hauth hlog

/-- A private key behind a mistyped `auth`. -/
def mistypedAuth : Str := lit "aut " ++ sampleNsec 1

theorem mistypedAuth_start :
    startsWith (toLowerCopy (trimCopy mistypedAuth)) (lit "auth") = false := by
  rw [← Bool.not_eq_true, startsWith, List.isPrefixOf_iff_prefix, toLowerCopy_trimCopy]
  intro hpre
  have hkept : lit "auth" <+: (toLowerCopy mistypedAuth).dropWhile isSpace :=
    hpre.trans (List.rdropWhile_prefix _ _)
  have hbytes : (toLowerCopy mistypedAuth).dropWhile isSpace =
      lit "aut " ++ toLowerCopy (sampleNsec 1) := by
    rw [mistypedAuth, toLowerCopy, List.map_append]
    rfl
  rw [hbytes] at hkept
  have hfour := List.prefix_of_prefix_length_le hkept (List.prefix_append _ _) (by decide)
  exact absurd hfour (by decide)

/-- The key is logged with the whole command. -/
theorem mistyped_auth_logged :
    (decodeNsecToHex (sampleNsec 1)).ok = true ∧
      ¬KeepsSecrets {} {} (some {}) {} mistypedAuth := by
  have hupper : (lit "nsec").all (fun c => !isUpper c) = true := rfl
  have hok : (decodeNsecToHex (sampleNsec 1)).ok = true := by
    rw [decodeNsecToHex, sampleNsec, decode_encode (by decide) (by simpa using hupper)
      (samplePrivkey 1).2]
  have hmem : sampleNsec 1 <:+: mistypedAuth := (List.suffix_append _ _).isInfix
  refine ⟨hok, fun hkeeps => ?_⟩
  obtain ⟨level, message, hlog, hinfix⟩ := @secret_logged {} {} {} mistypedAuth (sampleNsec 1)
    (isSecret_of_ok hok) hmem {} mistypedAuth_start
  exact hkeeps _ hmem hok level message hlog hinfix

end Monitostr.Ui
