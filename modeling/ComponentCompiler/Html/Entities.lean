/-!
The named character references of HTML. Each entry is a name without its first letter and its semicolon,
and the text it stands for, or behind commas its code points; a question mark says that the semicolon may
be missing. Entries in brackets continue the stem before them.
-/

namespace ComponentCompiler.Html

def namedReferences : Char → List String
  | 'A' =>
    ["Elig?Æ MP?,26 acute?Á breveĂ circ?Â cyА fr𝔄 grave?À lphaΑ macrĀ nd⩓ ogonĄ opf𝔸 pplyFunction,2061 ring?Å scr𝒜",
      "ssign≔ tilde?Ã uml?Ä"]
  | 'B' =>
    ["ackslash∖ arv⫧ arwed⌆ cyБ ecause∵ ernoullisℬ etaΒ fr𝔅 opf𝔹 reve˘ scrℬ umpeq≎"]
  | 'C' =>
    ["HcyЧ OPY?© acuteĆ ap⋒ apitalDifferentialDⅅ ayleysℭ caronČ cedil?Ç circĈ conint∰ dotĊ edilla¸ enterDot· frℭ hiΧ",
      "ircle(Dot⊙ Minus⊖ Plus⊕ Times⊗) lockwiseContourIntegral∲ loseCurly(DoubleQuote” Quote’) o(lon∷ lone⩴ ngruent≡",
      "nint∯ ntourIntegral∮ pfℂ product∐ unterClockwiseContourIntegral∳) ross⨯ scr𝒞 up⋓ upCap≍"]
  | 'D' =>
    ["Dⅅ Dotrahd⤑ JcyЂ ScyЅ ZcyЏ agger‡ arr↡ ashv⫤ caronĎ cyД el∇ eltaΔ fr𝔇 iacritical(Acute´ Dot˙ DoubleAcute˝",
      "Grave,60 Tilde˜) iamond⋄ ifferentialDⅆ o(pf𝔻 t¨ tDot,20dc tEqual≐ uble(ContourIntegral∯ Dot¨ DownArrow⇓",
      "Left(Arrow⇐ RightArrow⇔ Tee⫤) Long(LeftArrow⟸ LeftRightArrow⟺ RightArrow⟹) Right(Arrow⇒ Tee⊨) UpArrow⇑",
      "UpDownArrow⇕ VerticalBar∥) wn(Arrow(↓ Bar⤓ UpArrow⇵) Breve,311 Left(RightVector⥐ TeeVector⥞ Vector(↽ Bar⥖))",
      "Right(TeeVector⥟ Vector(⇁ Bar⥗)) Tee⊤ TeeArrow↧ arrow⇓)) scr𝒟 strokĐ"]
  | 'E' =>
    ["NGŊ TH?Ð acute?É caronĚ circ?Ê cyЭ dotĖ fr𝔈 grave?È lement∈ macrĒ mptySmallSquare◻ mptyVerySmallSquare▫ ogonĘ",
      "opf𝔼 psilonΕ qual⩵ qualTilde≂ quilibrium⇌ scrℰ sim⩳ taΗ uml?Ë xists∃ xponentialEⅇ"]
  | 'F' =>
    ["cyФ fr𝔉 illed(SmallSquare◼ VerySmallSquare▪) opf𝔽 orAll∀ ouriertrfℱ scrℱ"]
  | 'G' =>
    ["JcyЃ T?,3e ammaΓ ammadϜ breveĞ cedilĢ circĜ cyГ dotĠ fr𝔊 g⋙ opf𝔾 reater(Equal(≥ Less⋛) FullEqual≧ Greater⪢",
      "Less≷ SlantEqual⩾ Tilde≳) scr𝒢 t≫"]
  | 'H' =>
    ["ARDcyЪ acekˇ at,5e circĤ frℌ ilbertSpaceℋ opfℍ orizontalLine─ scrℋ strokĦ umpDownHump≎ umpEqual≏"]
  | 'I' =>
    ["EcyЕ JligĲ OcyЁ acute?Í circ?Î cyИ dotİ frℑ grave?Ì mℑ macrĪ maginaryIⅈ mplies⇒ nt∬ ntegral∫ ntersection⋂",
      "nvisible(Comma,2063 Times,2062) ogonĮ opf𝕀 otaΙ scrℐ tildeĨ ukcyІ uml?Ï"]
  | 'J' =>
    ["circĴ cyЙ fr𝔍 opf𝕁 scr𝒥 sercyЈ ukcyЄ"]
  | 'K' =>
    ["HcyХ JcyЌ appaΚ cedilĶ cyК fr𝔎 opf𝕂 scr𝒦"]
  | 'L' =>
    ["JcyЉ T?,3c acuteĹ ambdaΛ ang⟪ aplacetrfℒ arr↞ caronĽ cedilĻ cyЛ eft(AngleBracket⟨ Arrow(← Bar⇤ RightArrow⇆)",
      "Ceiling⌈ DoubleBracket⟦ DownTeeVector⥡ DownVector(⇃ Bar⥙) Floor⌊ Right(Arrow↔ Vector⥎) Tee⊣ TeeArrow↤",
      "TeeVector⥚ Triangle(⊲ Bar⧏ Equal⊴) UpDownVector⥑ UpTeeVector⥠ UpVector(↿ Bar⥘) Vector(↼ Bar⥒) arrow⇐",
      "rightarrow⇔) ess(EqualGreater⋚ FullEqual≦ Greater≶ Less⪡ SlantEqual⩽ Tilde≲) fr𝔏 l⋘ leftarrow⇚ midotĿ",
      "ong(LeftArrow⟵ LeftRightArrow⟷ RightArrow⟶ leftarrow⟸ leftrightarrow⟺ rightarrow⟹) opf𝕃 owerLeftArrow↙",
      "owerRightArrow↘ scrℒ sh↰ strokŁ t≪"]
  | 'M' =>
    ["ap⤅ cyМ ediumSpace,205f ellintrfℳ fr𝔐 inusPlus∓ opf𝕄 scrℳ uΜ"]
  | 'N' =>
    ["JcyЊ acuteŃ caronŇ cedilŅ cyН egative(MediumSpace,200b ThickSpace,200b ThinSpace,200b VeryThinSpace,200b)",
      "estedGreaterGreater≫ estedLessLess≪ ewLine,a fr𝔑 oBreak,2060 onBreakingSpace,a0 opfℕ ot(⫬ Congruent≢ CupCap≭",
      "DoubleVerticalBar∦ Element∉ Equal≠ EqualTilde,2242,338 Exists∄ Greater(≯ Equal≱ FullEqual,2267,338",
      "Greater,226b,338 Less≹ SlantEqual,2a7e,338 Tilde≵) HumpDownHump,224e,338 HumpEqual,224f,338 LeftTriangle(⋪",
      "Bar,29cf,338 Equal⋬) Less(≮ Equal≰ Greater≸ Less,226a,338 SlantEqual,2a7d,338 Tilde≴)",
      "Nested(GreaterGreater,2aa2,338 LessLess,2aa1,338) Precedes(⊀ Equal,2aaf,338 SlantEqual⋠) ReverseElement∌",
      "RightTriangle(⋫ Bar,29d0,338 Equal⋭) SquareSu(bset,228f,338 bsetEqual⋢ perset(,2290,338 Equal⋣))",
      "Subset,2282,20d2 SubsetEqual⊈ Succeeds(⊁ Equal,2ab0,338 SlantEqual⋡ Tilde,227f,338) Superset(,2283,20d2",
      "Equal⊉) Tilde(≁ Equal≄ FullEqual≇ Tilde≉) VerticalBar∤) scr𝒩 tilde?Ñ uΝ"]
  | 'O' =>
    ["EligŒ acute?Ó circ?Ô cyО dblacŐ fr𝔒 grave?Ò macrŌ megaΩ micronΟ opf𝕆 penCurly(DoubleQuote“ Quote‘) r⩔ scr𝒪",
      "slash?Ø tilde?Õ times⨷ uml?Ö ver(Bar‾ Brace⏞ Bracket⎴ Parenthesis⏜)"]
  | 'P' =>
    ["artialD∂ cyП fr𝔓 hiΦ iΠ lusMinus± oincareplaneℌ opfℙ r⪻ recedes(≺ Equal⪯ SlantEqual≼ Tilde≾) rime″ roduct∏",
      "roportion(∷ al∝) scr𝒫 siΨ"]
  | 'Q' =>
    ["UOT?,22 fr𝔔 opfℚ scr𝒬"]
  | 'R' =>
    ["Barr⤐ EG?® acuteŔ ang⟫ arr↠ arrtl⤖ caronŘ cedilŖ cyР eℜ everse(Element∋ Equilibrium⇋ UpEquilibrium⥯) frℜ hoΡ",
      "ight(AngleBracket⟩ Arrow(→ Bar⇥ LeftArrow⇄) Ceiling⌉ DoubleBracket⟧ DownTeeVector⥝ DownVector(⇂ Bar⥕) Floor⌋",
      "Tee⊢ TeeArrow↦ TeeVector⥛ Triangle(⊳ Bar⧐ Equal⊵) UpDownVector⥏ UpTeeVector⥜ UpVector(↾ Bar⥔) Vector(⇀ Bar⥓)",
      "arrow⇒) opfℝ oundImplies⥰ rightarrow⇛ scrℛ sh↱ uleDelayed⧴"]
  | 'S' =>
    ["HCHcyЩ HcyШ OFTcyЬ acuteŚ c⪼ caronŠ cedilŞ circŜ cyС fr𝔖 hort(DownArrow↓ LeftArrow← RightArrow→ UpArrow↑)",
      "igmaΣ mallCircle∘ opf𝕊 qrt√ quare(□ Intersection⊓ Subset⊏ SubsetEqual⊑ Superset(⊐ Equal⊒) Union⊔) scr𝒮 tar⋆",
      "u(b⋐ bset⋐ bsetEqual⊆ cceeds(≻ Equal⪰ SlantEqual≽ Tilde≿) chThat∋ m∑ p⋑ perset(⊃ Equal⊇) pset⋑)"]
  | 'T' =>
    ["HORN?Þ RADE™ SHcyЋ ScyЦ ab,9 auΤ caronŤ cedilŢ cyТ fr𝔗 herefore∴ hetaΘ hickSpace,205f,200a hinSpace,2009",
      "ilde(∼ Equal≃ FullEqual≅ Tilde≈) opf𝕋 ripleDot,20db scr𝒯 strokŦ"]
  | 'U' =>
    ["acute?Ú arr↟ arrocir⥉ brcyЎ breveŬ circ?Û cyУ dblacŰ fr𝔘 grave?Ù macrŪ nder(Bar,5f Brace⏟ Bracket⎵",
      "Parenthesis⏝) nion⋃ nionPlus⊎ ogonŲ opf𝕌 p(Arrow(↑ Bar⤒ DownArrow⇅) DownArrow↕ Equilibrium⥮ Tee⊥ TeeArrow↥",
      "arrow⇑ downarrow⇕ perLeftArrow↖ perRightArrow↗ siϒ silonΥ) ringŮ scr𝒰 tildeŨ uml?Ü"]
  | 'V' =>
    ["Dash⊫ bar⫫ cyВ dash⊩ dashl⫦ ee⋁ erbar‖ ert‖ ertical(Bar∣ Line,7c Separator❘ Tilde≀) eryThinSpace,200a fr𝔙 opf𝕍",
      "scr𝒱 vdash⊪"]
  | 'W' =>
    ["circŴ edge⋀ fr𝔚 opf𝕎 scr𝒲"]
  | 'X' =>
    ["fr𝔛 iΞ opf𝕏 scr𝒳"]
  | 'Y' =>
    ["AcyЯ IcyЇ UcyЮ acute?Ý circŶ cyЫ fr𝔜 opf𝕐 scr𝒴 umlŸ"]
  | 'Z' =>
    ["HcyЖ acuteŹ caronŽ cyЗ dotŻ eroWidthSpace,200b etaΖ frℨ opfℤ scr𝒵"]
  | 'a' =>
    ["acute?á breveă c(∾ E,223e,333 d∿ irc?â ute?´ yа) elig?æ f,2061 fr𝔞 grave?à lefsymℵ lephℵ lphaα macrā malg⨿",
      "mp?,26 n(d∧ dand⩕ dd⩜ dslope⩘ dv⩚ g(∠ e⦤ le∠ msd∡ msda(a⦨ b⦩ c⦪ d⦫ e⦬ f⦭ g⦮ h⦯) rt∟ rtvb⊾ rtvbd⦝ sph∢ stÅ",
      "zarr⍼)) ogoną opf𝕒 p(≈ E⩰ acir⩯ e≊ id≋ os,27 prox≈ proxeq≊) ring?å scr𝒶 st,2a symp≈ sympeq≍ tilde?ã uml?ä",
      "wconint∳ wint⨑"]
  | 'b' =>
    ["Not⫭ ack(cong≌ epsilon϶ prime‵ sim∽ simeq⋍) arvee⊽ arwed⌅ arwedge⌅ brk⎵ brktbrk⎶ cong≌ cyб dquo„ e(caus∵",
      "cause∵ mptyv⦰ psi϶ rnouℬ taβ thℶ tween≬) fr𝔟 ig(cap⋂ circ◯ cup⋃ odot⨀ oplus⨁ otimes⨂ sqcup⨆ star★",
      "triangle(down▽ up△) uplus⨄ vee⋁ wedge⋀) karow⤍ l(acklozenge⧫ acksquare▪ acktriangle(▴ down▾ left◂ right▸) ank␣",
      "k12▒ k14░ k34▓ ock█) ne,3d,20e5 nequiv,2261,20e5 not⌐ opf𝕓 ot⊥ ottom⊥ owtie⋈ ox(DL╗ DR╔ Dl╖ Dr╓ H═ HD╦ HU╩ Hd╤",
      "Hu╧ UL╝ UR╚ Ul╜ Ur╙ V(║ H╬ L╣ R╠ h╫ l╢ r╟) box⧉ dL╕ dR╒ dl┐ dr┌ h─ hD╥ hU╨ hd┬ hu┴ minus⊟ plus⊞ times⊠ uL╛ uR╘",
      "ul┘ ur└ v(│ H╪ L╡ R╞ h┼ l┤ r├)) prime‵ reve˘ rvbar?¦ s(cr𝒷 emi⁏ im∽ ime⋍ ol,5c olb⧅ olhsub⟈) ull• ullet• ump(≎",
      "E⪮ e≏ eq≏)"]
  | 'c' =>
    ["acuteć ap(∩ and⩄ brcup⩉ cap⩋ cup⩇ dot⩀ s,2229,fe00) aret⁁ aronˇ c(aps⩍ aronč edil?ç ircĉ ups⩌ upssm⩐) dotċ",
      "edil?¸ emptyv⦲ ent?¢ enterdot· fr𝔠 hcyч heck✓ heckmark✓ hiχ ir(○ E⧃ cˆ ceq≗ cle(arrow(left↺ right↻) dR® dSⓈ",
      "dast⊛ dcirc⊚ ddash⊝) e≗ fnint⨐ mid⫯ scir⧂) lubs♣ lubsuit♣ o(lon(,3a e≔ eq≔) m(ma,2c mat,40 p∁ pfn∘ plement∁",
      "plexesℂ) ng≅ ngdot⩭ nint∮ pf𝕔 prod∐ py?© pysr℗) rarr↵ ross✗ scr𝒸 sub⫏ sube⫑ sup⫐ supe⫒ tdot⋯ u(darrl⤸ darrr⤵",
      "epr⋞ esc⋟ larr↶ larrp⤽ p(∪ brcap⩈ cap⩆ cup⩊ dot⊍ or⩅ s,222a,fe00) rarr↷ rarrm⤼ rly(eqprec⋞ eqsucc⋟ vee⋎",
      "wedge⋏) rren?¤ rvearrow(left↶ right↷) vee⋎ wed⋏) wconint∲ wint∱ ylcty⌭"]
  | 'd' =>
    ["Arr⇓ Har⥥ agger† alethℸ arr↓ ash‐ ashv⊣ bkarow⤏ blac˝ caronď cyд dⅆ dagger‡ darr⇊ dotseq⩷ eg?° eltaδ emptyv⦱",
      "fisht⥿ fr𝔡 harl⇃ harr⇂ i(am(⋄ ond⋄ ondsuit♦ s♦) e¨ gammaϝ sin⋲ v÷ vide?÷ videontimes⋇ vonx⋇) jcyђ lcorn⌞",
      "lcrop⌍ o(llar,24 pf𝕕 t(˙ eq≐ eqdot≑ minus∸ plus∔ square⊡) ublebarwedge⌆ wnarrow↓ wndownarrows⇊ wnharpoon(left⇃",
      "right⇂)) rbkarow⤐ rcorn⌟ rcrop⌌ scr𝒹 scyѕ sol⧶ strokđ tdot⋱ tri▿ trif▾ uarr⇵ uhar⥯ wangle⦦ zcyџ zigrarr⟿"]
  | 'e' =>
    ["DDot⩷ Dot≑ acute?é aster⩮ caroně cir≖ circ?ê colon≕ cyэ dotė eⅇ fDot≒ fr𝔢 g⪚ grave?è gs⪖ gsdot⪘ l⪙ linters⏧",
      "llℓ ls⪕ lsdot⪗ macrē mpty(∅ set∅ v∅) msp,2003 msp13,2004 msp14,2005 ngŋ nsp,2002 ogonę opf𝕖 p(ar⋕ arsl⧣ lus⩱",
      "siε silonε sivϵ) q(circ≖ colon≕ sim≂ slantgtr⪖ slantless⪕ uals,3d uest≟ uiv≡ uivDD⩸ vparsl⧥) rDot≓ rarr⥱ scrℯ",
      "sdot≐ sim≂ taη th?ð uml?ë uro€ xcl,21 xist∃ xpectationℰ xponentialeⅇ"]
  | 'f' =>
    ["allingdotseq≒ cyф emale♀ filigﬃ fligﬀ flligﬄ fr𝔣 iligﬁ jlig,66,6a lat♭ lligﬂ ltns▱ nofƒ opf𝕗 orall∀ ork⋔ orkv⫙",
      "partint⨍ rac(1(2?½ 3⅓ 4?¼ 5⅕ 6⅙ 8⅛) 23⅔ 25⅖ 34?¾ 35⅗ 38⅜ 45⅘ 56⅚ 58⅝ 78⅞) rasl⁄ rown⌢ scr𝒻"]
  | 'g' =>
    ["E≧ El⪌ acuteǵ ammaγ ammadϝ ap⪆ breveğ circĝ cyг dotġ e(≥ l⋛ q≥ qq≧ qslant⩾ s⩾ scc⪩ sdot(⪀ o⪂ ol⪄) sl,22db,fe00",
      "sles⪔) fr𝔤 g≫ gg⋙ imelℷ jcyѓ l≷ lE⪒ la⪥ lj⪤ n(E≩ ap⪊ approx⪊ e⪈ eq⪈ eqq≩ sim⋧) opf𝕘 rave,60 scrℊ sim≳ sime⪎",
      "siml⪐ t(?,3e cc⪧ cir⩺ dot⋗ lPar⦕ quest⩼ r(approx⪆ arr⥸ dot⋗ eqless⋛ eqqless⪌ less≷ sim≳)) vertneqq,2269,fe00",
      "vnE,2269,fe00"]
  | 'h' =>
    ["Arr⇔ a(irsp,200a lf½ miltℋ rdcyъ rr↔ rrcir⥈ rrw↭) barℏ circĥ earts♥ eartsuit♥ ellip… ercon⊹ fr𝔥 ksearow⤥",
      "kswarow⤦ o(arr⇿ mtht∻ okleftarrow↩ okrightarrow↪ pf𝕙 rbar―) scr𝒽 slashℏ strokħ ybull⁃ yphen‐"]
  | 'i' =>
    ["acute?í c,2063 circ?î cyи ecyе excl?¡ ff⇔ fr𝔦 grave?ì iⅈ iiint⨌ iint∭ infin⧜ iota℩ jligĳ m(acrī ageℑ aglineℐ",
      "agpartℑ athı of⊷ pedƵ) n(∈ care℅ fin∞ fintie⧝ odotı t(∫ cal⊺ egersℤ ercal⊺ larhk⨗ prod⨼)) ocyё ogonį opf𝕚 otaι",
      "prod⨼ quest?¿ scr𝒾 sin(∈ E⋹ dot⋵ s⋴ sv⋳ v∈) t,2062 tildeĩ ukcyі uml?ï"]
  | 'j' =>
    ["circĵ cyй fr𝔧 mathȷ opf𝕛 scr𝒿 sercyј ukcyє"]
  | 'k' =>
    ["appaκ appavϰ cedilķ cyк fr𝔨 greenĸ hcyх jcyќ opf𝕜 scr𝓀"]
  | 'l' =>
    ["Aarr⇚ Arr⇐ Atail⤛ Barr⤎ E≦ Eg⪋ Har⥢ a(cuteĺ emptyv⦴ granℒ mbdaλ ng⟨ ngd⦑ ngle⟨ p⪅ quo?« rr(← b⇤ bfs⤟ fs⤝ hk↩",
      "lp↫ pl⤹ sim⥳ tl↢) t⪫ tail⤙ te⪭ tes,2aad,fe00) b(arr⤌ brk❲ race,7b rack,5b rke⦋ rksld⦏ rkslu⦍) caronľ cedilļ",
      "ceil⌈ cub,7b cyл d(ca⤶ quo“ quor„ rdhar⥧ rushar⥋ sh↲) e(≤ ft(arrow(← tail↢) harpoon(down↽ up↼) leftarrows⇇",
      "right(arrow(↔ s⇆) harpoons⇋ squigarrow↭) threetimes⋋) g⋚ q≤ qq≦ qslant⩽ s(⩽ cc⪨ dot(⩿ o⪁ or⪃) g,22da,fe00 ges⪓",
      "s(approx⪅ dot⋖ eqgtr⋚ eqqgtr⪋ gtr≶ sim≲))) fisht⥼ floor⌊ fr𝔩 g≶ gE⪑ hard↽ haru↼ harul⥪ hblk▄ jcyљ l≪ larr⇇",
      "lcorner⌞ lhard⥫ ltri◺ midotŀ moust⎰ moustache⎰ n(E≨ ap⪉ approx⪉ e⪇ eq⪇ eqq≨ sim⋦) o(ang⟬ arr⇽ brk⟦",
      "ng(leftarrow⟵ leftrightarrow⟷ mapsto⟼ rightarrow⟶) oparrow(left↫ right↬) par⦅ pf𝕝 plus⨭ times⨴ wast∗ wbar,5f",
      "z◊ zenge◊ zf⧫) par,28 parlt⦓ r(arr⇆ corner⌟ har⇋ hard⥭ m,200e tri⊿) s(aquo‹ cr𝓁 h↰ im≲ ime⪍ img⪏ qb,5b quo‘",
      "quor‚ trokł) t(?,3c cc⪦ cir⩹ dot⋖ hree⋋ imes⋉ larr⥶ quest⩻ rPar⦖ ri◃ rie⊴ rif◂) urdshar⥊ uruhar⥦",
      "vertneqq,2268,fe00 vnE,2268,fe00"]
  | 'm' =>
    ["DDot∺ a(cr?¯ le♂ lt✠ ltese✠ p↦ psto(↦ down↧ left↤ up↥) rker▮) comma⨩ cyм dash— easuredangle∡ fr𝔪 ho℧ i(cro?µ",
      "d∣ dast,2a dcir⫰ ddot?· nus(− b⊟ d∸ du⨪)) lcp⫛ ldr… nplus∓ odels⊧ opf𝕞 p∓ scr𝓂 stpos∾ uμ ultimap⊸ umap⊸"]
  | 'n' =>
    ["Gg,22d9,338 Gt,226b,20d2 Gtv,226b,338 Leftarrow⇍ Leftrightarrow⇎ Ll,22d8,338 Lt,226a,20d2 Ltv,226a,338",
      "Rightarrow⇏ VDash⊯ Vdash⊮ a(bla∇ cuteń ng,2220,20d2 p≉ pE,2a70,338 pid,224b,338 posŉ pprox≉ tur(♮ al♮ alsℕ))",
      "bsp?,a0 bump,224e,338 bumpe,224f,338 c(ap⩃ aronň edilņ ong≇ ongdot,2a6d,338 up⩂ yн) dash– e(≠ Arr⇗ arhk⤤ arr↗",
      "arrow↗ dot,2250,338 quiv≢ sear⤨ sim,2242,338 xist∄ xists∄) fr𝔫 g(E,2267,338 e≱ eq≱ eqq,2267,338",
      "eqslant,2a7e,338 es,2a7e,338 sim≵ t≯ tr≯) hArr⇎ harr↮ hpar⫲ i∋ is⋼ isd⋺ iv∋ jcyњ l(Arr⇍ E,2266,338 arr↚ dr‥",
      "e(≰ ftarrow↚ ftrightarrow↮ q≰ qq,2266,338 qslant,2a7d,338 s,2a7d,338 ss≮) sim≴ t≮ tri⋪ trie⋬) mid∤ opf𝕟 ot?¬",
      "otin(∉ E,22f9,338 dot,22f5,338 va∉ vb⋷ vc⋶) otni(∌ va∌ vb⋾ vc⋽) p(ar(∦ allel∦ sl,2afd,20e5 t,2202,338) olint⨔",
      "r⊀ rcue⋠ re,2aaf,338 rec⊀ receq,2aaf,338) rArr⇏ rarr(↛ c,2933,338 w,219d,338) rightarrow↛ rtri⋫ rtrie⋭ s(c⊁",
      "ccue⋡ ce,2ab0,338 cr𝓃 hortmid∤ hortparallel∦ im≁ ime≄ imeq≄ mid∤ par∦ qsube⋢ qsupe⋣ u(b⊄ bE,2ac5,338 be⊈",
      "bset(,2282,20d2 eq⊈ eqq,2ac5,338) cc⊁ cceq,2ab0,338 p⊅ pE,2ac6,338 pe⊉ pset(,2283,20d2 eq⊉ eqq,2ac6,338)))",
      "tgl≹ tilde?ñ tlg≸ triangle(left⋪ lefteq⋬ right(⋫ eq⋭)) uν um,23 umero№ umsp,2007 v(Dash⊭ Harr⤄ ap,224d,20d2",
      "dash⊬ ge,2265,20d2 gt,3e,20d2 infin⧞ lArr⤂ le,2264,20d2 lt,3c,20d2 ltrie,22b4,20d2 rArr⤃ rtrie,22b5,20d2",
      "sim,223c,20d2) wArr⇖ warhk⤣ warr↖ warrow↖ wnear⤧"]
  | 'o' =>
    ["SⓈ acute?ó ast⊛ cir⊚ circ?ô cyо dash⊝ dblacő div⨸ dot⊙ dsold⦼ eligœ fcir⦿ fr𝔬 gon˛ grave?ò gt⧁ hbar⦵ hmΩ int∮",
      "larr↺ lcir⦾ lcross⦻ line‾ lt⧀ macrō megaω micronο mid⦶ minus⊖ opf𝕠 par⦷ perp⦹ plus⊕ r(∨ arr↻ d⩝ derℴ derofℴ",
      "df?ª dm?º igof⊶ or⩖ slope⩗ v⩛) scrℴ slash?ø sol⊘ tilde?õ times⊗ timesas⨶ uml?ö vbar⌽"]
  | 'p' =>
    ["ar(∥ a?¶ allel∥ sim⫳ sl⫽ t∂) cyп er(cnt,25 iod,2e mil‰ p⊥ tenk‱) fr𝔭 hiφ hivϕ hmmatℳ hone☎ iπ itchfork⋔ ivϖ",
      "lanckℏ lanckhℎ lankvℏ lus(,2b acir⨣ b⊞ cir⨢ do∔ du⨥ e⩲ mn?± sim⨦ two⨧) m± ointint⨕ opf𝕡 ound?£ r(≺ E⪳ ap⪷ cue≼",
      "e⪯ ec(≺ approx⪷ curlyeq≼ eq⪯ napprox⪹ neqq⪵ nsim⋨ sim≾) ime′ imesℙ nE⪵ nap⪹ nsim⋨ o(d∏ falar⌮ fline⌒ fsurf⌓ p∝",
      "pto∝) sim≾ urel⊰) scr𝓅 siψ uncsp,2008"]
  | 'q' =>
    ["fr𝔮 int⨌ opf𝕢 prime⁗ scr𝓆 uaternionsℍ uatint⨖ uest,3f uesteq≟ uot?,22"]
  | 'r' =>
    ["Aarr⇛ Arr⇒ Atail⤜ Barr⤏ Har⥤ a(ce,223d,331 cuteŕ dic√ emptyv⦳ ng(⟩ d⦒ e⦥ le⟩) quo?» rr(→ ap⥵ b⇥ bfs⤠ c⤳ fs⤞",
      "hk↪ lp↬ pl⥅ sim⥴ tl↣ w↝) tail⤚ tio∶ tionalsℚ) b(arr⤍ brk❳ race,7d rack,5d rke⦌ rksld⦎ rkslu⦐) caronř cedilŗ",
      "ceil⌉ cub,7d cyр dca⤷ dldhar⥩ dquo” dquor” dsh↳ eal(ℜ ineℛ partℜ sℝ) ect▭ eg?® fisht⥽ floor⌋ fr𝔯 hard⇁ haru⇀",
      "harul⥬ hoρ hovϱ ight(arrow(→ tail↣) harpoon(down⇁ up⇀) leftarrows⇄ leftharpoons⇌ rightarrows⇉ squigarrow↝",
      "threetimes⋌) ing˚ isingdotseq≓ larr⇄ lhar⇌ lm,200f moust(⎱ ache⎱) nmid⫮ o(ang⟭ arr⇾ brk⟧ par⦆ pf𝕣 plus⨮",
      "times⨵) par,29 pargt⦔ ppolint⨒ rarr⇉ s(aquo› cr𝓇 h↱ qb,5d quo’ quor’) three⋌ times⋊ tri(▹ e⊵ f▸ ltri⧎) uluhar⥨",
      "x℞"]
  | 's' =>
    ["acuteś bquo‚ c(≻ E⪴ ap⪸ aronš cue≽ e⪰ edilş ircŝ nE⪶ nap⪺ nsim⋩ polint⨓ sim≿ yс) dot(⋅ b⊡ e⩦) e(Arr⇘ arhk⤥",
      "arr↘ arrow↘ ct?§ mi,3b swar⤩ tminus∖ tmn∖ xt✶) fr𝔰 frown⌢ h(arp♯ chcyщ cyш ortmid∣ ortparallel∥ y?,ad) igma(σ",
      "fς vς) im(∼ dot⩪ e≃ eq≃ g⪞ gE⪠ l⪝ lE⪟ ne≆ plus⨤ rarr⥲) larr← m(allsetminus∖ ashp⨳ eparsl⧤ id∣ ile⌣ t⪪ te⪬",
      "tes,2aac,fe00) oftcyь ol,2f olb⧄ olbar⌿ opf𝕤 pades♠ padesuit♠ par∥ q(cap⊓ caps,2293,fe00 cup⊔ cups,2294,fe00",
      "su(b⊏ be⊑ bset⊏ bseteq⊑ p⊐ pe⊒ pset⊐ pseteq⊒) u□ uare□ uarf▪ uf▪) rarr→ scr𝓈 setmn∖ smile⌣ starf⋆ tar☆ tarf★",
      "traight(epsilonϵ phiϕ) trns¯ ub(⊂ E⫅ dot⪽ e⊆ edot⫃ mult⫁ nE⫋ ne⊊ plus⪿ rarr⥹ set(⊂ eq⊆ eqq⫅ neq⊊ neqq⫋) sim⫇",
      "sub⫕ sup⫓) ucc(≻ approx⪸ curlyeq≽ eq⪰ napprox⪺ neqq⪶ nsim⋩ sim≿) um∑ ung♪ up(⊃ 1?¹ 2?² 3?³ E⫆ dot⪾ dsub⫘ e⊇",
      "edot⫄ hsol⟉ hsub⫗ larr⥻ mult⫂ nE⫌ ne⊋ plus⫀ set(⊃ eq⊇ eqq⫆ neq⊋ neqq⫌) sim⫈ sub⫔ sup⫖) wArr⇙ warhk⤦ warr↙",
      "warrow↙ wnwar⤪ zlig?ß"]
  | 't' =>
    ["arget⌖ auτ brk⎴ caronť cedilţ cyт dot,20db elrec⌕ fr𝔱 h(ere4∴ erefore∴ etaθ etasymϑ etavϑ ickapprox≈ icksim∼",
      "insp,2009 kap≈ ksim∼ orn?þ) ilde˜ imes(?× b⊠ bar⨱ d⨰) int∭ o(ea⤨ p⊤ pbot⌶ pcir⫱ pf𝕥 pfork⫚ sa⤩) prime‴ rade™",
      "ri(angle(▵ down▿ left◃ lefteq⊴ q≜ right(▹ eq⊵)) dot◬ e≜ minus⨺ plus⨹ sb⧍ time⨻) rpezium⏢ scr𝓉 scyц shcyћ",
      "strokŧ wixt≬ wohead(leftarrow↞ rightarrow↠)"]
  | 'u' =>
    ["Arr⇑ Har⥣ acute?ú arr↑ brcyў breveŭ circ?û cyу darr⇅ dblacű dhar⥮ fisht⥾ fr𝔲 grave?ù harl↿ harr↾ hblk▀ lcorn⌜",
      "lcorner⌜ lcrop⌏ ltri◸ macrū ml?¨ ogonų opf𝕦 p(arrow↑ downarrow↕ harpoon(left↿ right↾) lus⊎ siυ sihϒ silonυ",
      "uparrows⇈) rcorn⌝ rcorner⌝ rcrop⌎ ringů rtri◹ scr𝓊 tdot⋰ tildeũ tri▵ trif▴ uarr⇈ uml?ü wangle⦧"]
  | 'v' =>
    ["Arr⇕ Bar⫨ Barv⫩ Dash⊨ angrt⦜ ar(epsilonϵ kappaϰ nothing∅ phiϕ piϖ propto∝ r↕ rhoϱ sigmaς subsetneq(,228a,fe00",
      "q,2acb,fe00) supsetneq(,228b,fe00 q,2acc,fe00) thetaϑ triangle(left⊲ right⊳)) cyв dash⊢ e(e∨ ebar⊻ eeq≚ llip⋮",
      "rbar,7c rt,7c) fr𝔳 ltri⊲ nsub,2282,20d2 nsup,2283,20d2 opf𝕧 prop∝ rtri⊳ scr𝓋 subnE,2acb,fe00 subne,228a,fe00",
      "supnE,2acc,fe00 supne,228b,fe00 zigzag⦚"]
  | 'w' =>
    ["circŵ edbar⩟ edge∧ edgeq≙ eierp℘ fr𝔴 opf𝕨 p℘ r≀ reath≀ scr𝓌"]
  | 'x' =>
    ["cap⋂ circ◯ cup⋃ dtri▽ fr𝔵 hArr⟺ harr⟷ iξ lArr⟸ larr⟵ map⟼ nis⋻ odot⨀ opf𝕩 oplus⨁ otime⨂ rArr⟹ rarr⟶ scr𝓍",
      "sqcup⨆ uplus⨄ utri△ vee⋁ wedge⋀"]
  | 'y' =>
    ["acute?ý acyя circŷ cyы en?¥ fr𝔶 icyї opf𝕪 scr𝓎 ucyю uml?ÿ"]
  | 'z' =>
    ["acuteź caronž cyз dotż eetrfℨ etaζ fr𝔷 hcyж igrarr⇝ opf𝕫 scr𝓏 wj,200d wnj,200c"]
  | _ => []

end ComponentCompiler.Html
