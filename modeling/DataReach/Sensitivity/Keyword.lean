import DataReach.Sensitivity
/-! The words that give data of a class away, in canonical form. -/

namespace DataReach.Sensitivity

def keywords : Sensitivity → List String
  | .credentials => ["password", "passwd", "pwd", "passphrase", "secret", "client_secret", "token",
      "api_key", "apikey", "access_key", "private_key", "secret_key", "signing_key", "credential",
      "pin", "otp", "totp", "mfa", "salt", "session_id"]
  | .financial => ["credit_card", "card_number", "cc_number", "cvv", "cvc", "iban", "swift",
      "routing_number", "account_number", "bank", "bank_account", "salary", "income", "balance",
      "payment", "billing", "invoice", "tax_id"]
  | .health => ["diagnosis", "medical", "health", "prescription", "medication", "condition",
      "allergy", "allergie", "blood_type", "patient", "treatment", "symptom", "insurance_id"]
  | .pii => ["ssn", "social_security", "email", "phone", "phone_number", "address", "street",
      "postal_code", "zip_code", "dob", "date_of_birth", "birth_date", "birthday", "first_name",
      "last_name", "full_name", "passport", "driver_license", "national_id", "ip_address", "gender"]
  | .unknown => []

end DataReach.Sensitivity
