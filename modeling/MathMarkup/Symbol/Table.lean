/-!
This module contains the tables that relate the vocabulary of TeX to that of Typst. A TeX name is a
command without its backslash; a Typst name may have several parts, joined by dots. The order of a
table is the order in which it is listed, and where a Typst name has several TeX names the first
of them is preferred.
-/

namespace MathMarkup
namespace Symbol

inductive Arity where
  | one
  | two
deriving DecidableEq, Repr

def Arity.toNat : Arity → Nat
  | one => 1
  | two => 2

def lowerGreek : List (String × String) :=
  [("alpha", "alpha"), ("beta", "beta"), ("gamma", "gamma"), ("delta", "delta"),
   ("varepsilon", "epsilon"), ("epsilon", "epsilon.alt"), ("zeta", "zeta"), ("eta", "eta"),
   ("theta", "theta"), ("vartheta", "theta.alt"), ("iota", "iota"), ("kappa", "kappa"),
   ("varkappa", "kappa.alt"), ("lambda", "lambda"), ("mu", "mu"), ("nu", "nu"), ("xi", "xi"),
   ("omicron", "omicron"), ("pi", "pi"), ("varpi", "pi.alt"), ("rho", "rho"), ("varrho", "rho.alt"),
   ("sigma", "sigma"), ("varsigma", "sigma.alt"), ("tau", "tau"), ("upsilon", "upsilon"),
   ("varphi", "phi"), ("phi", "phi.alt"), ("chi", "chi"), ("psi", "psi"), ("omega", "omega")]

def upperGreek : List (String × String) :=
  [("Gamma", "Gamma"), ("Delta", "Delta"), ("Theta", "Theta"), ("Lambda", "Lambda"), ("Xi", "Xi"),
   ("Pi", "Pi"), ("Sigma", "Sigma"), ("Upsilon", "Upsilon"), ("Phi", "Phi"), ("Psi", "Psi"),
   ("Omega", "Omega")]

def hebrew : List (String × String) :=
  [("aleph", "aleph"), ("beth", "beth"), ("gimel", "gimel"), ("daleth", "daleth")]

def binary : List (String × String) :=
  [("pm", "plus.minus"), ("mp", "minus.plus"), ("times", "times"), ("div", "div"),
   ("cdot", "dot.op"), ("ast", "ast.op"), ("star", "star.op"), ("circ", "compose"),
   ("bullet", "bullet"), ("oplus", "plus.circle"), ("ominus", "minus.circle"),
   ("otimes", "times.circle"), ("odot", "dot.circle"), ("cup", "union"), ("cap", "inter"),
   ("sqcup", "union.sq"), ("sqcap", "inter.sq"), ("uplus", "union.plus"), ("setminus", "without"),
   ("wedge", "and"), ("land", "and"), ("vee", "or"), ("lor", "or"), ("coprod", "product.co"),
   ("amalg", "product.co"), ("dagger", "dagger"), ("dag", "dagger"), ("ddagger", "dagger.double"),
   ("ddag", "dagger.double"), ("wr", "wreath")]

def relations : List (String × String) :=
  [("leq", "lt.eq"), ("le", "lt.eq"), ("geq", "gt.eq"), ("ge", "gt.eq"), ("neq", "eq.not"),
   ("ne", "eq.not"), ("lt", "lt"), ("gt", "gt"), ("equiv", "equiv"), ("approx", "approx"),
   ("sim", "tilde.op"), ("simeq", "tilde.eq"), ("cong", "tilde.equiv"), ("propto", "prop"),
   ("ll", "lt.double"), ("gg", "gt.double"), ("lll", "lt.triple"), ("ggg", "gt.triple"),
   ("prec", "prec"), ("succ", "succ"), ("preceq", "prec.eq"), ("succeq", "succ.eq"),
   ("leqslant", "lt.eq.slant"), ("geqslant", "gt.eq.slant"), ("lesssim", "lt.tilde"),
   ("gtrsim", "gt.tilde"), ("in", "in"), ("notin", "in.not"), ("ni", "in.rev"),
   ("subset", "subset"), ("supset", "supset"), ("subseteq", "subset.eq"), ("supseteq", "supset.eq"),
   ("subsetneq", "subset.neq"), ("supsetneq", "supset.neq"), ("nsubseteq", "subset.eq.not"),
   ("nsupseteq", "supset.eq.not"), ("perp", "perp"), ("parallel", "parallel"), ("mid", "divides"),
   ("nmid", "divides.not"), ("models", "models"), ("vdash", "tack.r"), ("dashv", "tack.l"),
   ("vDash", "tack.r.double"), ("asymp", "asymp"), ("doteq", "eq.dot"), ("triangleq", "eq.delta"),
   ("coloneqq", "colon.eq"), ("eqqcolon", "eq.colon"), ("bowtie", "join")]

def arrows : List (String × String) :=
  [("rightarrow", "arrow.r"), ("to", "arrow.r"), ("leftarrow", "arrow.l"), ("gets", "arrow.l"),
   ("leftrightarrow", "arrow.l.r"), ("Rightarrow", "arrow.r.double"),
   ("Leftarrow", "arrow.l.double"), ("Leftrightarrow", "arrow.l.r.double"),
   ("longrightarrow", "arrow.r.long"), ("longleftarrow", "arrow.l.long"),
   ("longleftrightarrow", "arrow.l.r.long"), ("Longrightarrow", "arrow.r.double.long"),
   ("implies", "arrow.r.double.long"), ("Longleftarrow", "arrow.l.double.long"),
   ("impliedby", "arrow.l.double.long"), ("Longleftrightarrow", "arrow.l.r.double.long"),
   ("iff", "arrow.l.r.double.long"), ("uparrow", "arrow.t"), ("downarrow", "arrow.b"),
   ("updownarrow", "arrow.t.b"), ("Uparrow", "arrow.t.double"), ("Downarrow", "arrow.b.double"),
   ("Updownarrow", "arrow.t.b.double"), ("nearrow", "arrow.tr"), ("searrow", "arrow.br"),
   ("nwarrow", "arrow.tl"), ("swarrow", "arrow.bl"), ("mapsto", "arrow.r.bar"),
   ("longmapsto", "arrow.r.long.bar"), ("Mapsto", "arrow.r.double.bar"),
   ("hookrightarrow", "arrow.r.hook"), ("hookleftarrow", "arrow.l.hook"),
   ("twoheadrightarrow", "arrow.r.twohead"), ("twoheadleftarrow", "arrow.l.twohead"),
   ("rightarrowtail", "arrow.r.tail"), ("leftarrowtail", "arrow.l.tail"),
   ("rightsquigarrow", "arrow.r.squiggly"), ("leftsquigarrow", "arrow.l.squiggly"),
   ("rightharpoonup", "harpoon.rt"), ("rightharpoondown", "harpoon.rb"),
   ("leftharpoonup", "harpoon.lt"), ("leftharpoondown", "harpoon.lb"),
   ("rightleftharpoons", "harpoons.rtlb"), ("leftrightharpoons", "harpoons.ltrb")]

def largeOperators : List (String × String) :=
  [("sum", "sum"), ("prod", "product"), ("int", "integral"), ("iint", "integral.double"),
   ("iiint", "integral.triple"), ("oint", "integral.cont"), ("bigcup", "union.big"),
   ("bigcap", "inter.big"), ("bigsqcup", "union.sq.big"), ("biguplus", "union.plus.big"),
   ("bigoplus", "plus.circle.big"), ("bigotimes", "times.circle.big"),
   ("bigodot", "dot.circle.big"), ("bigwedge", "and.big"), ("bigvee", "or.big")]

def functions : List (String × String) :=
  [("arccos", "arccos"), ("arcsin", "arcsin"), ("arctan", "arctan"), ("arg", "arg"), ("cos", "cos"),
   ("cosh", "cosh"), ("cot", "cot"), ("coth", "coth"), ("csc", "csc"), ("deg", "deg"),
   ("det", "det"), ("dim", "dim"), ("exp", "exp"), ("gcd", "gcd"), ("hom", "hom"), ("inf", "inf"),
   ("ker", "ker"), ("lg", "lg"), ("lim", "lim"), ("liminf", "liminf"), ("limsup", "limsup"),
   ("ln", "ln"), ("log", "log"), ("max", "max"), ("min", "min"), ("Pr", "Pr"), ("sec", "sec"),
   ("sin", "sin"), ("sinh", "sinh"), ("sup", "sup"), ("tan", "tan"), ("tanh", "tanh"),
   ("bmod", "mod"), ("mod", "mod")]

def miscellaneous : List (String × String) :=
  [("infty", "infinity"), ("partial", "partial"), ("nabla", "nabla"), ("forall", "forall"),
   ("exists", "exists"), ("nexists", "exists.not"), ("emptyset", "emptyset"),
   ("varnothing", "nothing"), ("neg", "not"), ("lnot", "not"), ("top", "top"), ("bot", "bot"),
   ("angle", "angle"), ("measuredangle", "angle.arc"), ("triangle", "triangle.stroked.t"),
   ("square", "square.stroked"), ("Box", "square.stroked"), ("blacksquare", "square.filled"),
   ("ell", "ell"), ("hbar", "planck.reduce"), ("imath", "dotless.i"), ("jmath", "dotless.j"),
   ("Re", "Re"), ("Im", "Im"), ("prime", "prime"), ("backprime", "prime.rev"),
   ("therefore", "therefore"), ("because", "because"), ("checkmark", "checkmark"), ("flat", "flat"),
   ("sharp", "sharp"), ("natural", "natural"), ("S", "section"), ("P", "pilcrow"),
   ("copyright", "copyright"), ("degree", "degree"), ("colon", "colon"), ("backslash", "backslash")]

def dots : List (String × String) :=
  [("ldots", "dots.h"), ("dots", "dots.h"), ("dotsc", "dots.h"), ("cdots", "dots.h.c"),
   ("dotsb", "dots.h.c"), ("vdots", "dots.v"), ("ddots", "dots.down")]

def delimiters : List (String × String) :=
  [("langle", "chevron.l"), ("rangle", "chevron.r"), ("lfloor", "floor.l"), ("rfloor", "floor.r"),
   ("lceil", "ceil.l"), ("rceil", "ceil.r"), ("lbrace", "brace.l"), ("rbrace", "brace.r"),
   ("lbrack", "bracket.l"), ("rbrack", "bracket.r"), ("vert", "bar.v"), ("lvert", "bar.v"),
   ("rvert", "bar.v"), ("Vert", "bar.v.double"), ("lVert", "bar.v.double"),
   ("rVert", "bar.v.double")]

def spacing : List (String × String) :=
  [("quad", "quad"), ("qquad", "wide"), ("enspace", "space.en"), ("thinspace", "thin"),
   ("medspace", "med"), ("thickspace", "thick")]

def commands : List (String × String) :=
  [("mathbb", "bb"), ("mathcal", "cal"), ("mathfrak", "frak"), ("mathit", "italic"),
   ("mathrm", "upright"), ("mathsf", "sans"), ("mathtt", "mono"), ("mathscr", "scr"),
   ("boldsymbol", "bold"), ("bm", "bold"), ("hat", "hat"), ("widehat", "hat"), ("tilde", "tilde"),
   ("widetilde", "tilde"), ("bar", "macron"), ("overline", "overline"), ("underline", "underline"),
   ("vec", "arrow"), ("overrightarrow", "arrow"), ("overleftarrow", "arrow.l"), ("dot", "dot"),
   ("ddot", "dot.double"), ("dddot", "dot.triple"), ("acute", "acute"), ("grave", "grave"),
   ("breve", "breve"), ("check", "caron"), ("mathring", "circle"), ("overbrace", "overbrace"),
   ("underbrace", "underbrace"), ("cancel", "cancel"), ("sqrt", "sqrt"), ("frac", "frac"),
   ("dfrac", "frac"), ("tfrac", "frac"), ("binom", "binom"), ("dbinom", "binom"),
   ("tbinom", "binom")]

def pairs : List (String × String) :=
  lowerGreek ++ upperGreek ++ hebrew ++ binary ++ relations ++ arrows ++ largeOperators ++
  functions ++ miscellaneous ++ dots ++ delimiters ++ spacing ++ commands

/--
Further Typst names that have a TeX name but are never the Typst name of one. The TeX name comes
first, as in `pairs`.
-/
def aliases : List (String × String) :=
  [("infty", "oo"), ("partial", "diff"), ("langle", "angle.l"), ("rangle", "angle.r"),
   ("cap", "sect"), ("bigcap", "sect.big"), ("star", "star.stroked")]

def shorthands : List (String × String) :=
  [("arrow.r", "->"), ("arrow.r.long", "-->"), ("arrow.r.bar", "|->"), ("arrow.r.double", "=>"),
   ("arrow.r.double.long", "==>"), ("arrow.r.double.bar", "|=>"), ("arrow.r.squiggly", "~>"),
   ("arrow.r.tail", ">->"), ("arrow.r.twohead", "->>"), ("arrow.l", "<-"), ("arrow.l.long", "<--"),
   ("arrow.l.double.long", "<=="), ("arrow.l.squiggly", "<~"), ("arrow.l.tail", "<-<"),
   ("arrow.l.twohead", "<<-"), ("arrow.l.r", "<->"), ("arrow.l.r.long", "<-->"),
   ("arrow.l.r.double", "<=>"), ("arrow.l.r.double.long", "<==>"), ("eq.not", "!="),
   ("lt.eq", "<="), ("gt.eq", ">="), ("lt.double", "<<"), ("gt.double", ">>"), ("lt.triple", "<<<"),
   ("gt.triple", ">>>"), ("colon.eq", ":="), ("eq.colon", "=:"), ("dots.h", "...")]

def arities : List (String × Arity) :=
  [("sqrt", .one), ("text", .one), ("operatorname", .one), ("hspace", .one), ("mathbb", .one),
   ("mathbf", .one), ("mathcal", .one), ("mathfrak", .one), ("mathit", .one), ("mathrm", .one),
   ("mathscr", .one), ("mathsf", .one), ("mathtt", .one), ("boldsymbol", .one), ("bm", .one),
   ("hat", .one), ("widehat", .one), ("tilde", .one), ("widetilde", .one), ("bar", .one),
   ("overline", .one), ("underline", .one), ("vec", .one), ("overrightarrow", .one),
   ("overleftarrow", .one), ("dot", .one), ("ddot", .one), ("dddot", .one), ("acute", .one),
   ("grave", .one), ("breve", .one), ("check", .one), ("mathring", .one), ("overbrace", .one),
   ("underbrace", .one), ("cancel", .one), ("frac", .two), ("dfrac", .two), ("tfrac", .two),
   ("binom", .two), ("dbinom", .two), ("tbinom", .two), ("overset", .two), ("underset", .two),
   ("stackrel", .two)]

def operators : List String :=
  ["arccos", "arcsin", "arctan", "arg", "cos", "cosh", "cot", "coth", "csc", "csch", "ctg", "deg",
   "det", "dim", "exp", "gcd", "lcm", "hom", "id", "im", "inf", "ker", "lg", "lim", "liminf",
   "limsup", "ln", "log", "max", "min", "mod", "Pr", "sec", "sech", "sin", "sinc", "sinh", "sup",
   "tan", "tanh", "tg"]

end Symbol
end MathMarkup
