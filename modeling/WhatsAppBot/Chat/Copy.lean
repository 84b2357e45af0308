import WhatsAppBot.Bot.Ops
import WhatsAppBot.Prompt.PricePolicy
import WhatsAppBot.Prompt.Texts

/-!
# The texts a customer receives

The company copy as the code ships it: `persona.py`, `handoff.py`, `intent.py`, `price_policy.py` and
`quota.py`.
-/

set_option autoImplicit false

namespace Chat.Shipped

open Lib Bot

def welcome : String :=
  Prompt.opening ++
  "\n\nيسعدنا مساعدتك في كل ما يخص أعمال التشطيبات والمقاولات.\n\n" ++
  "أخبرني كيف أستطيع مساعدتك اليوم، سواء كنت ترغب في:\n" ++
  "• تشطيب شقة أو فيلا\n• تشطيب محل أو مكتب\n" ++
  "• طلب عرض سعر من مدير المبيعات\n• طلب معاينة\n• الاستفسار عن خدماتنا\n" ++
  "أو أي استفسار آخر."

def welcomePrefix : String := Prompt.opening ++ "\n\nشكراً لتواصلك معنا."

def notUnderstood : String :=
  "لم أتمكن من فهم رسالتك بشكل كافٍ، من فضلك أخبرني بما تحتاج وسأساعدك " ++
  "بكل سرور."

def closing : String :=
  "شكراً لتواصلك مع شركة الكيان للتشطيبات والمقاولات العامة. 🤍\n\n" ++
  "لو احتجت أي مساعدة أخرى، أو كان عندك أي استفسار، أو حابب تطلب معاينة " ++
  "أو عرض سعر في أي وقت، يسعدنا دائماً خدمتك.\n\nنتمنى لحضرتك يوماً سعيداً."

def serviceBusy : String :=
  "نعتذر لحضرتك، يوجد ضغط مؤقت على النظام في الوقت الحالي. سنعاود " ++
  "التواصل معك في أقرب وقت ممكن."

def unsupportedMessage : String :=
  "نعتذر لحضرتك، لا أستطيع التعامل مع هذا النوع من الرسائل حالياً. من " ++
  "فضلك أرسل استفسارك في رسالة نصية وسأساعدك بكل سرور."

def handoffAck : String :=
  "سيتم الرد عليك من احد موظفينا قريبا.\n" ++
  "Thanks - I am passing you to a colleague. Someone will reply here " ++
  "shortly."

def salesHandoffAr : String :=
  "أكيد، هوصّل حضرتك لمدير المبيعات عشان يجهز لك عرض سعر دقيق.\n" ++
  "هيتواصل معاك هنا في أقرب وقت."

def salesHandoffAck (salesPhone : String) : String :=
  let phone := strip salesPhone
  salesHandoffAr ++ (if phone ≠ "" then "\n📞 " ++ phone else "") ++
    "\n\nThanks - I am passing you to our Sales Manager, " ++
    "who will prepare an accurate quotation for you."

def outOfScopeReply (companyName : String) : String :=
  let name := strip companyName
  let scope := if name ≠ "" then "خدمات شركة " ++ name else "خدماتنا"
  let englishScope := if name ≠ "" then name ++ "'s services" else "our services"
  "أنا هنا لمساعدة حضرتك في أي استفسار عن " ++ scope ++
    "، أو عن أعمال التشطيبات والمقاولات بشكل عام.\n" ++
    "لو عندك أي سؤال في المجال ده، أنا جاهز أساعدك." ++
    "\n\n" ++ "I'd be glad to help with anything about " ++ englishScope ++ ", or about " ++
    "finishing and contracting work in general."

def deflection (salesPhone : String) : String :=
  String.ofList (Prompt.deflection salesPhone.toList)

def rateLimitMessage : String :=
  "وصلتنا رسائلك وشكرًا لتواصلك معنا. دعنا نأخذ دقتقة للرد عليك بشكل " ++
  "مناسب وكامل. من فضلك أرسل سؤالك فت رسالة واحدة وسنوافيك حقه فورًا."

def abuseMessage : String :=
  "لاحظنا عددًا كبترًا من الرسائل المتكررة. سنتوقف مؤقتًا عن الرد الآلتي " ++
  "لفترة قصترة. إذا كنت تحتاج مساعدة عاجلة فاكتب كلمة موظف وسيتواصل معك " ++
  "أحد زملائنا."

def capacityBase : String :=
  "شكرًا لتواصلك معنا. الخدمة الآلتية غتر متاحة حالتًا، وسيتواصل معك أحد " ++
  "زملائنا في أقرب وقت."

def capacityMessage (salesPhone : String) : String :=
  capacityBase ++
    if salesPhone ≠ "" then "\n\n📞 للتواصل المباشر: " ++ salesPhone
    else "\n\nمن فضلك اترك رقم هاتفك وسنتصل بك."

/-- `blocked_for_cost`. -/
def blockedForCost (d : QuotaDecision) : Bool :=
  d.reason = some "spend_exceeded" ∨ d.reason = some "tokens_exceeded" ∨ d.reason = some "ai_disabled"

/-- `message_for`. -/
def messageFor (d : QuotaDecision) (salesPhone : String) : String :=
  if blockedForCost d then capacityMessage salesPhone
  else if d.reason = some "flooding" ∨ d.reason = some "spamming" ∨ d.reason = some "blocked" then
    abuseMessage
  else rateLimitMessage

/-- The texts the handlers are given. -/
def copy : Copy where
  welcome := welcome
  welcomePrefix := welcomePrefix
  notUnderstood := notUnderstood
  serviceBusy := serviceBusy
  unsupportedMessage := unsupportedMessage
  handoffAck := handoffAck
  salesHandoffAck := salesHandoffAck
  outOfScopeReply := outOfScopeReply
  deflection := deflection
  quotaMessage := messageFor
  closing := closing

end Chat.Shipped
